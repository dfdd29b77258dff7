import Pinboard.Store.Statement
import Pinboard.Workspace.Reach

/-!
# Locks of others

Another process can hold a lock on a database in a file. It takes it as any connection does, so what
keeps a store from reading or changing the database keeps it from its lock too.
-/

namespace Pinboard

open Files Store

/-- Why nobody else can take a lock on a database. -/
inductive LockError where
  /-- The database cannot be reached. -/
  | unreached (e : ReachError)
  /-- The database refuses. -/
  | storage (e : StorageError)
  deriving DecidableEq

/-- The wording of an error. -/
def LockError.message : LockError → String
  | unreached e => e.message
  | storage e => e.message

/-- What a lock needs to be taken. Whoever only reads needs the table of the users; whoever is to
write prepares an empty database for it at once. -/
def requireForLock (s : Setting) (t : Tables) (isNew : Bool) : Lock → Except StorageError Unit
  | .none => .ok ()
  | .shared => do
    s.beginReading
    requireTable (t.schema s) .users
  | _ => do
    s.beginReading
    if isNew && !s.readOnly then s.setAside
    s.commit

namespace Workspace

/-- Gives the lock of somebody else up. -/
def releaseLock (w : Workspace) : Workspace := { w with lock := none }

/-- Lets somebody else take a lock on a database, in place of the one that they hold. A file is made
if it is not there. -/
def takeLock (w : Workspace) (path : String) (lock : Lock) :
    Except LockError Unit × Workspace :=
  match w.releaseLock.reach path with
  | (.error e, w) => (.error (.unreached e), w)
  | (.ok link, w) =>
    match link.backing with
    | .file id _ =>
      match requireForLock (w.setting link) (w.database link.backing).tables
          (!w.hasDatabase id) lock with
      | .error e => (.error (.storage e), w.tidy link)
      | .ok () => (.ok (), { w.tidy link with lock := some (id, lock) })
    | _ => (.ok (), w)

end Workspace

end Pinboard
