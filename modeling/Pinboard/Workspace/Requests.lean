import Pinboard.Store.Request
import Pinboard.Workspace

/-!
# Requests to an open store

What is asked of a store that is open: requests, direct edits of its tables, and faults that are set
on them and lifted again.
-/

namespace Pinboard

open Store

/-- What recording uses names as the source of its lines in the journal. -/
def recordSource : String := "tally_core::repository::tag::recent_tag_repo"

/-- The table that a fault can be set on by a name. -/
def faultTable (k : Schema) (name : String) : Except StorageError Table :=
  if (keptTables.lookup name.toLower).isSome then .error .faultlessTable
  else
    match Table.ofName? name with
    | some table =>
      if k.tables.contains table then .ok table else .error (.noSuchTable s!"main.{name}")
    | none => .error (.noSuchTable s!"main.{name}")

/-- Prepares for the faults from a number on to be lifted, which counts as a change of the database
if there are any. A connection that knows of none looks first. -/
def liftFaults (s : Setting) (first : Nat) : Operation Unit := fun c =>
  let concerned (c : Connection) : Bool := c.known.faults.any (first ≤ ·.number)
  let lift : Operation Unit := autocommit s false (fun _ => .ok ()) (Steps.ask fun _ => s.setAside)
  if concerned c then lift c
  else
    match inspect s (fun _ => .ok ()) (fun _ => .ok ()) c with
    | (.ok (), c) => if concerned c then lift c else (.ok (), c)
    | other => other

namespace Workspace

/-! ## Requests and edits -/

/-- Changes the faults that are set on the database behind a store, which knows of it; without one
there is nothing to change. -/
def mapFaults (w : Workspace) (s : Seat) (change : List Fault → List Fault) : Workspace :=
  match w.seat s with
  | none => w
  | some store =>
    let d := w.database store.link.backing
    let faults := change d.faults
    w.keep s { store with known := ⟨d.tables.present, faults⟩ } { d with faults := faults }

/-- Notes in the journal which uses could not be recorded. -/
def noteUnrecorded (w : Workspace) (owner : UserId) (strategy : Dialect.Strategy)
    (us : List Unrecorded) : Workspace :=
  us.foldl (fun w u =>
    let key := u.key
    let user := owner.toNat
    let name := strategy.dialect.name
    let shown := u.cause.failure.message
    w.note .warn recordSource
      s!"Failed to record use of tag '{key}' for user {user} ({name}): {shown}") w

/-- Answers a request with the store in a seat; none if there is none. -/
def request (w : Workspace) (s : Seat) (r : Request) : Option (Except Refusal Reply × Workspace) :=
  match w.operate s fun setting store => r.run setting store.dialect.strategy with
  | none => none
  | some (result, after) =>
    match r, result, w.seat s with
    | .recordUses strategy owner _ _, .ok (.unrecorded us), some store =>
      some (result,
        after.noteUnrecorded owner (strategy.getD store.dialect.strategy) us)
    | _, _, _ => some (result, after)

/-- Makes a direct edit with the store in a seat. With a table go the faults that are set on it. -/
def edit (w : Workspace) (s : Seat) (e : Edit) : Option (Except Refusal Nat × Workspace) :=
  match w.operate s fun setting _ => e.run setting with
  | some (.ok count, after) =>
    match e with
    | .dropTable name =>
      some (.ok count, after.mapFaults s fun faults =>
        faults.filter fun f => Table.ofName? name ≠ some f.table)
    | _ => some (.ok count, after)
  | other => other

/-! ## Faults -/

/-- Sets a fault on the table of a name, which counts as a change of the database; none if there is
no store. -/
def setFault (w : Workspace) (s : Seat) (name : String) (fault : Table → Fault) :
    Option (Except Refusal Unit × Workspace) :=
  match w.operate s fun setting _ =>
      autocommit setting false (fun k => (faultTable k name).map fun _ => ())
        (Steps.ask fun t => do
          let table ← faultTable (t.schema setting) name
          setting.setAside
          pure table) with
  | some (.ok table, after) => some (.ok (), after.mapFaults s (fault table :: ·))
  | some (.error e, after) => some (.error e, after)
  | none => none

/-- Lifts the faults from a number on; none if there is no store. -/
def clearFaults (w : Workspace) (s : Seat) (first : Nat) :
    Option (Except Refusal Unit × Workspace) :=
  match w.operate s fun setting _ => liftFaults setting first with
  | some (.ok (), after) => some (.ok (), after.mapFaults s (·.filter (·.number < first)))
  | other => other

end Workspace

end Pinboard
