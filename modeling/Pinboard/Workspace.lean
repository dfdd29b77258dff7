import Pinboard.Log.Journal
import Pinboard.Store.Transaction

/-!
# A workspace

What a process works with: a volume of files, the databases in some of them and in memory, its
journal, and the stores it has open. Several stores may be open on one database, and another process
may hold a lock on a database in a file.
-/

namespace Pinboard

open Files Log Store

/-- A database: its tables, and the faults that are set on them. -/
structure Database where
  /-- The tables. -/
  tables : Tables := .absent
  /-- The faults, the one set last first. -/
  faults : List Fault := []

/-- Where the database of an open store is kept. -/
inductive Backing where
  /-- With the store itself, and gone when that is closed. -/
  | own (d : Database)
  /-- In memory, as long as any store is open on it. -/
  | named (system name : String)
  /-- In a file at a path from the root. -/
  | file (id : FileId) (path : String)

/-- How a database is reached. -/
structure Link where
  /-- Where it is. -/
  backing : Backing
  /-- It is told never to change. -/
  fixed : Bool := false
  /-- It can only be read. -/
  readOnly : Bool := false
  /-- The locks of others are not seen. -/
  lockless : Bool := false

/-- An open store. -/
structure OpenStore where
  /-- The path it was opened with. -/
  path : String
  /-- The dialect it records uses in. -/
  dialect : Dialect
  /-- How it reaches its database. -/
  link : Link
  /-- What it saw when it last looked at the database. -/
  known : Schema := {}
  /-- The rows that its last change touched. -/
  changed : Nat := 0

/-- The stores that can be open side by side. -/
inductive Seat where
  /-- The process's own. -/
  | main
  /-- Another one beside it. -/
  | peer
  deriving DecidableEq, Repr

/-- What a process works with. -/
structure Workspace where
  /-- The files. -/
  volume : Volume
  /-- The databases that are kept in files. -/
  databases : List (FileId × Database) := []
  /-- The databases that are kept in memory under a name, each with its system. -/
  named : List ((String × String) × Database) := []
  /-- A lock that somebody else holds on the database in a file. -/
  lock : Option (FileId × Lock) := none
  /-- The journal. -/
  journal : Journal
  /-- The process's own store, if it is open. -/
  main : Option OpenStore := none
  /-- Another store, if one is open. -/
  peer : Option OpenStore := none

/-- The file beside a database in which a change is prepared. -/
def journalPath (path : String) : String := path ++ "-journal"

/-- The file beside a database in which changes are collected. -/
def walPath (path : String) : String := path ++ "-wal"

namespace Workspace

/-! ## The journal -/

/-- Writes a line of the journal. -/
def note (w : Workspace) (level : Level) (source message : String) : Workspace :=
  let (journal, volume) := w.journal.write level source message w.volume
  { w with journal := journal, volume := volume }

/-- Begins the journal. -/
def startJournal (w : Workspace) (dir appName : String) :
    Except JournalError Unit × Workspace :=
  let (result, journal, volume) := w.journal.start dir appName w.volume
  (result, { w with journal := journal, volume := volume })

/-- Writes a line of the journal's own. -/
def tell (w : Workspace) (level : Level) (message : String) :
    Except JournalError Unit × Workspace :=
  let (result, journal, volume) := w.journal.tell level message w.volume
  (result, { w with journal := journal, volume := volume })

/-! ## Open stores -/

/-- The store in a seat. -/
def seat (w : Workspace) : Seat → Option OpenStore
  | .main => w.main
  | .peer => w.peer

/-- Is a store open on a database in memory? -/
def isOpenOn (store : Option OpenStore) (key : String × String) : Bool :=
  match store with
  | some { link := { backing := .named system name, .. }, .. } => (system, name) == key
  | _ => false

/-- The workspace without the databases in memory that no store is open on any more. -/
def forget (w : Workspace) : Workspace :=
  { w with named := w.named.filter fun n => isOpenOn w.main n.1 || isOpenOn w.peer n.1 }

/-- Puts a store, or none, into a seat. -/
def setSeat (w : Workspace) (s : Seat) (store : Option OpenStore) : Workspace :=
  match s with
  | .main => { w with main := store }.forget
  | .peer => { w with peer := store }.forget

/-- The database at a place. -/
def database (w : Workspace) : Backing → Database
  | .own d => d
  | .named system name => (w.named.lookup (system, name)).getD {}
  | .file id _ => (w.databases.lookup id).getD {}

/-- Puts a store into a seat, and a database behind it. -/
def keep (w : Workspace) (s : Seat) (store : OpenStore) (d : Database) : Workspace :=
  match store.link.backing with
  | .own _ => w.setSeat s (some { store with link := { store.link with backing := .own d } })
  | .named system name =>
    let w := w.setSeat s (some store)
    { w with named := ((system, name), d) :: w.named.filter (·.1 ≠ (system, name)) }
  | .file id _ =>
    let w := w.setSeat s (some store)
    { w with databases := (id, d) :: w.databases.filter (·.1 ≠ id) }

/-! ## What surrounds a store -/

/-- Is there a database in a file? -/
def hasDatabase (w : Workspace) (id : FileId) : Bool := (w.databases.lookup id).isSome

/-- What stands in the way of reading a database in a file: directories in the places of the files
beside it, or something in it that is no database. A single byte counts as nothing. -/
def unreadable (w : Workspace) (fixed : Bool) (id : FileId) (path : String) :
    Option StorageError :=
  let filled := w.hasDatabase id || 1 < (w.volume.content id).size
  if !fixed && filled && w.volume.isDirectory (journalPath path) then some .ioError
  else if !fixed && w.volume.isDirectory (walPath path) then
    some (if filled then .cannotOpen else .ioError)
  else if filled && !w.hasDatabase id then some .notADatabase
  else none

/-- What stands in the way of changing a database in a file: the place where changes are prepared is
taken by a directory, or its name is too long. -/
def unwritable (w : Workspace) (path : String) : Option StorageError :=
  match (FileAction.target (journalPath path)).run.run w.volume with
  | (.ok (_, some .directory), _) => some .cannotOpen
  | (.error _, _) => some .cannotOpen
  | _ => none

/-- The lock that somebody else holds on the database in a file. -/
def lockOn (w : Workspace) (id : FileId) : Lock :=
  match w.lock with
  | some (other, lock) => if other = id then lock else .none
  | none => .none

/-- What surrounds the statements of a store with such a link. -/
def setting (w : Workspace) (l : Link) : Setting :=
  let bare : Setting := { faults := (w.database l.backing).faults, readOnly := l.readOnly }
  match l.backing with
  | .file id path =>
    { bare with
      lock := if l.lockless then .none else w.lockOn id
      unreadable := w.unreadable l.fixed id path
      unwritable := w.unwritable path }
  | _ => bare

/-! ## Operations -/

/-- Runs an operation on the store in a seat; none if there is none. -/
def operate {α : Type} (w : Workspace) (s : Seat) (op : Setting → OpenStore → Operation α) :
    Option (Except Refusal α × Workspace) :=
  match w.seat s with
  | none => none
  | some store =>
    let d := w.database store.link.backing
    let (result, c) := op (w.setting store.link) store ⟨d.tables, store.known, store.changed⟩
    some (result, w.keep s { store with known := c.known, changed := c.changed }
      { d with tables := c.tables })

end Workspace

end Pinboard
