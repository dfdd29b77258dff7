import Pinboard.Store.Transaction

/-!
# Direct edits

Single statements on the tables that pass by the rules of the operations and keep only those of the
tables: whatever a column takes can be written.
-/

namespace Pinboard.Store

/-- A direct edit. Rows are found by values of any type, as a comparison with their columns takes
them. -/
inductive Edit where
  /-- Inserts a user. -/
  | putUser (id name : Given)
  /-- Inserts a dashboard. -/
  | putDashboard (id owner name order : Given)
  /-- Changes the position of a dashboard. -/
  | setOrder (id order : Given)
  /-- Changes the name of a tag's kind. -/
  | setTagKind (owner key kind : Given)
  /-- Changes the moment of a recent use. -/
  | setLastUsed (owner key moment : Given)
  /-- Removes a table. -/
  | dropTable (name : String)

/-- Is a number the same as a value that it is compared with? -/
def sameNumber (n : Int) (wanted : Given) : Bool :=
  match wanted with
  | some c => (Cell.integer n).compare c.asInteger == .eq
  | none => false

/-- Is a text the same as a value that it is compared with? -/
def sameText (text : Cell) (wanted : Given) : Bool :=
  match wanted with
  | some c => text.compare c.asText == .eq
  | none => false

namespace Edit

/-- What has to be there for the statement to be prepared. -/
def needs (k : Schema) : Edit → Except StorageError Unit
  | putUser _ _ => requireFor k .users .insert
  | putDashboard _ _ _ _ => requireFor k .dashboards .insert
  | setOrder _ _ => requireFor k .dashboards .update
  | setTagKind _ _ _ => requireFor k .tags .update
  | setLastUsed _ _ _ => requireFor k .recents .update
  | dropTable name => requireDrop k name

/-- Does the edit change rows one by one? -/
def rowwise (k : Schema) : Edit → Bool
  | dropTable name =>
    match droppable k name with
    | .ok table => dropsRows k table
    | .error _ => false
  | _ => true

/-- The statement. -/
def steps (s : Setting) : Edit → Steps Unit
  | putUser id name => do
    let _ ← Steps.change (insertUser s id name)
  | putDashboard id owner name order => do
    let _ ← Steps.change (insertDashboard s id owner name order)
  | setOrder id order => do
    let _ ← Steps.changeMany (Store.setOrder s (sameNumber ·.id id) order)
  | setTagKind owner key kind => do
    let _ ← Steps.changeMany
      (Store.setTagKind s (fun r => sameNumber r.owner owner && sameText r.key key) kind)
  | setLastUsed owner key moment => do
    let _ ← Steps.changeMany
      (Store.setLastUsed s (fun r => sameNumber r.owner owner && sameText r.key key) moment)
  | dropTable name => do
    match ← Steps.define (Store.dropTable s name) with
    | some count => let _ ← Steps.changeMany (pure count)
    | none => pure ()

/-- The edit as an operation, which tells how many rows the last change of the connection
touched. -/
def run (s : Setting) (e : Edit) : Operation Nat := fun c =>
  match autocommit s (e.rowwise (c.tables.schema s)) (e.needs ·) (e.steps s) c with
  | (.ok (), c) => (.ok c.changed, c)
  | (.error r, c) => (.error r, c)

end Edit

/-! ## The whole contents -/

/-- The contents of the tables, each in the order of its key; none for a table that is missing. -/
structure Contents where
  /-- The users by number. -/
  users : Option (List UserRow)
  /-- The dashboards by number. -/
  dashboards : Option (List DashboardRow)
  /-- The tag definitions by owner and key. -/
  tags : Option (List TagRow)
  /-- The recent uses by user and key. -/
  recents : Option (List RecentRow)

/-- The contents of the tables in order. -/
def contents (s : Setting) : Operation Contents :=
  inspect s (fun _ => .ok ()) fun t => .ok
    { users := t.users.map (·.mergeSort fun a b => a.id ≤ b.id)
      dashboards := t.dashboards.map (·.mergeSort fun a b => a.id ≤ b.id)
      tags := t.tags.map (·.mergeSort fun a b =>
        ((compare a.owner b.owner).then (a.key.compare b.key)).isLE)
      recents := t.recents.map (·.mergeSort fun a b =>
        ((compare a.owner b.owner).then (a.key.compare b.key)).isLE) }

end Pinboard.Store
