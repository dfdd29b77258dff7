import Pinboard.Dialect
import Pinboard.Store.Setting

/-!
# Statements

The single steps that change tables: inserting, removing and changing rows. Each obeys the rules of
the tables: unique keys, columns that must hold something, rows that refer to users, and the
removal of what refers to a user that goes. Rows change one by one, and what a failing step leaves
behind is up to the transaction around it.
-/

namespace Pinboard.Store

/-- A step of a transaction, on the tables as the transaction has changed them so far. -/
abbrev Statement := StateT Tables (Except StorageError)

namespace Statement

/-- Fails. -/
def fail {α : Type} (e : StorageError) : Statement α := fun _ => .error e

/-- Puts other tables in place. -/
def put (t : Tables) : Statement Unit := fun _ => .ok ((), t)

end Statement

/-! ## Reaching tables -/

namespace Tables

/-- The users, if there is a table of them. -/
def userRows (t : Tables) : Except StorageError (List UserRow) :=
  match t.users with
  | some rows => .ok rows
  | none => .error (.noSuchTable Table.users.name)

/-- The dashboards, if there is a table of them. -/
def dashboardRows (t : Tables) : Except StorageError (List DashboardRow) :=
  match t.dashboards with
  | some rows => .ok rows
  | none => .error (.noSuchTable Table.dashboards.name)

/-- The tag definitions, if there is a table of them. -/
def tagRows (t : Tables) : Except StorageError (List TagRow) :=
  match t.tags with
  | some rows => .ok rows
  | none => .error (.noSuchTable Table.tags.name)

/-- The recent uses, if there is a table of them. -/
def recentRows (t : Tables) : Except StorageError (List RecentRow) :=
  match t.recents with
  | some rows => .ok rows
  | none => .error (.noSuchTable Table.recents.name)

/-- The users that rows of another table refer to. -/
def parentRows (t : Tables) : Except StorageError (List UserRow) :=
  match t.users with
  | some rows => .ok rows
  | none => .error .noParentTable

end Tables

/-- What can be known of the tables and of the faults that surround them. -/
def Tables.schema (t : Tables) (s : Setting) : Schema := ⟨t.present, s.faults⟩

/-- The table has to be there. -/
def requireTable (k : Schema) (table : Table) : Except StorageError Unit :=
  if k.tables.contains table then .ok () else .error (.noSuchTable table.name)

/-- The table of the users has to be there, for rows of another table refer to them. -/
def requireParent (k : Schema) : Except StorageError Unit :=
  if k.tables.contains .users then .ok () else .error .noParentTable

/-- What a statement that changes rows of a table needs: the table, where rows that refer to users
come or go the table of the users, and faults that name columns that there are. -/
def requireFor (k : Schema) (table : Table) (event : RowEvent) : Except StorageError Unit := do
  requireTable k table
  if table ≠ .users ∧ event ≠ .update then requireParent k
  k.sound table event

/-- What the removal of users needs: it reaches into every table of what belongs to them. -/
def requireCascade (k : Schema) : Except StorageError Unit :=
  (k.tables.filter (· ≠ .users)).forM fun table => k.sound table .delete

/-- What the removal of a user needs. -/
def requireRemoval (k : Schema) : Except StorageError Unit := do
  requireFor k .users .delete
  requireCascade k

namespace Tables

/-- A statement that changes rows of a table is ready to run. -/
def ready (t : Tables) (s : Setting) (table : Table) (event : RowEvent) :
    Except StorageError Unit := do
  requireFor (t.schema s) table event
  s.permitWriting

end Tables

/-- A value that has to be there. -/
def presentIn (table : Table) (column : String) : Given → Except StorageError Cell
  | some c => .ok c
  | none => .error (.notNull table column)

/-! ## Numbering rows -/

/-- The number that is asked for, if one is: only whole numbers are numbers of rows. -/
def givenNumber : Given → Except StorageError (Option Int)
  | none => .ok none
  | some c =>
    match c.asInteger with
    | .integer n => .ok (some n)
    | _ => .error .mismatch

/-- The number for a new row: one more than the largest that any row has or had, from 1 on. -/
def nextNumber (taken : List Int) (last : Int) : Except StorageError Int :=
  let top := taken.foldl max (max last 0)
  if top < greatestInteger then .ok (top + 1) else .error .full

/-- The number that faults see on a row which is still to be numbered. -/
def unnumbered : Int := -1

/-- The number of a new row: the one asked for, or the next. -/
def chooseNumber (taken : List Int) (last : Int) : Option Int → Except StorageError Int
  | some n => .ok n
  | none => nextNumber taken last

/-! ## Inserting -/

/-- Refuses unless a condition holds. -/
def demand (holds : Bool) (e : StorageError) : Except StorageError Unit :=
  if holds then .ok () else .error e

/-- Inserts a user and tells its number. -/
def insertUser (s : Setting) (id name : Given) : Statement Int := do
  let t ← get
  t.ready s .users .insert
  let rows ← t.userRows
  let asked ← givenNumber id
  let name := name.map Cell.asText
  let shown := asked.getD unnumbered
  s.permit .users .insert (Table.users.row shown [some (.integer shown), name])
  let number ← chooseNumber (rows.map (·.id)) t.lastUser asked
  let name ← presentIn .users "name" name
  demand (rows.all (·.id ≠ number)) (.notUnique .users ["id"])
  demand (rows.all (·.name ≠ name)) (.notUnique .users ["name"])
  s.setAside
  Statement.put { t with
    users := some (rows ++ [⟨number, name⟩]), lastUser := max t.lastUser number }
  pure number

/-- Does a cell hold the number of a user? -/
def refersTo (users : List UserRow) (c : Cell) : Option Int :=
  match c with
  | .integer n => if users.any (·.id == n) then some n else none
  | _ => none

/-- The number of the user that a cell refers to. -/
def parentNumber (users : List UserRow) (c : Cell) : Except StorageError Int :=
  match refersTo users c with
  | some n => .ok n
  | none => .error .noParentRow

/-- Writes a new row that refers to a user, and tells the user's number. A statement that does
nothing but insert the row looks for the user first; one that may do more looks when it is done. -/
def Setting.writeChild (s : Setting) (mayDoMore : Bool) (users : List UserRow) (owner : Cell) :
    Except StorageError Int :=
  if mayDoMore then do
    s.setAside
    parentNumber users owner
  else do
    let owner ← parentNumber users owner
    s.setAside
    pure owner

/-- Inserts a dashboard and tells its number. Faults that are set on the event make more of the
statement, whichever rows they strike. -/
def insertDashboard (s : Setting) (id owner name order : Given) : Statement Int := do
  let t ← get
  t.ready s .dashboards .insert
  let rows ← t.dashboardRows
  let users ← t.parentRows
  let asked ← givenNumber id
  let owner := owner.map Cell.asInteger
  let name := name.map Cell.asText
  let order := order.map Cell.asInteger
  let shown := asked.getD unnumbered
  s.permit .dashboards .insert
    (Table.dashboards.row shown [some (.integer shown), owner, name, order])
  let number ← chooseNumber (rows.map (·.id)) t.lastDashboard asked
  let owner ← presentIn .dashboards "user_id" owner
  let name ← presentIn .dashboards "name" name
  let order ← presentIn .dashboards "order" order
  demand (rows.all (·.id ≠ number)) (.notUnique .dashboards ["id"])
  let owner ← s.writeChild (s.watches .dashboards .insert) users owner
  Statement.put { t with
    dashboards := some (rows ++ [⟨number, owner, name, order⟩])
    lastDashboard := max t.lastDashboard number }
  pure number

/-- The number of a new row in a table that does not remember old numbers. -/
def freshNumber (taken : List Int) : Int := taken.foldl max 0 + 1

/-- Inserts a tag definition, and gives its row a number. -/
def insertTag (s : Setting) (row : TagRow) : Statement Unit := do
  let t ← get
  t.ready s .tags .insert
  let rows ← t.tagRows
  let users ← t.parentRows
  s.permit .tags .insert { row with number := unnumbered }.columns
  demand (rows.all fun r => !(r.owner == row.owner && r.key == row.key))
    (.notUnique .tags ["user_id", "key"])
  let _ ← s.writeChild (s.watches .tags .insert) users (.integer row.owner)
  let row := { row with number := freshNumber (rows.map (·.number)) }
  Statement.put { t with tags := some (rows ++ [row]) }

/-- Is it the use of this key by this user? -/
def RecentRow.isFor (r : RecentRow) (owner : Int) (key : Cell) : Bool :=
  r.owner == owner && r.key == key

/-- Inserts a recent use in place of the one that has its key. As there may be one to remove, the
user is looked for when that is done. -/
def replaceRecent (s : Setting) (row : RecentRow) : Statement Unit := do
  let t ← get
  t.ready s .recents .insert
  let rows ← t.recentRows
  let users ← t.parentRows
  s.permit .recents .insert { row with number := unnumbered }.columns
  let _ ← s.writeChild true users (.integer row.owner)
  let row := { row with number := freshNumber (rows.map (·.number)) }
  Statement.put { t with
    recents := some (rows.filter (!·.isFor row.owner row.key) ++ [row]) }

/-- Inserts a recent use, or changes the moment of the one that has its key. The row is written even
where it has that moment already. -/
def mergeRecent (s : Setting) (row : RecentRow) : Statement Unit := do
  let t ← get
  t.ready s .recents .insert
  (t.schema s).sound .recents .update
  let rows ← t.recentRows
  let users ← t.parentRows
  s.permit .recents .insert { row with number := unnumbered }.columns
  match rows.find? (·.isFor row.owner row.key) with
  | some old =>
    s.write .recents .update { row with number := old.number }.columns
    Statement.put { t with
      recents := some (rows.map fun r =>
        if r.isFor row.owner row.key then { r with lastUsed := row.lastUsed } else r) }
  | none =>
    let mayDoMore := s.watches .recents .insert || s.watches .recents .update
    let _ ← s.writeChild mayDoMore users (.integer row.owner)
    let row := { row with number := freshNumber (rows.map (·.number)) }
    Statement.put { t with recents := some (rows ++ [row]) }

/-- What the statement of a strategy needs: that it can be read at all, and its tables. -/
def requireRecent (strategy : Dialect.Strategy) (k : Schema) : Except StorageError Unit :=
  match strategy with
  | .replace => requireFor k .recents .insert
  | .duplicateKey => .error (.syntaxNear "DUPLICATE")
  | .conflictTarget => do
    requireFor k .recents .insert
    k.sound .recents .update

/-- Records a use in the way of a dialect. The database does not know the clause that names no
key. -/
def putRecent (s : Setting) (strategy : Dialect.Strategy) (row : RecentRow) : Statement Unit :=
  match strategy with
  | .replace => replaceRecent s row
  | .conflictTarget => mergeRecent s row
  | .duplicateKey => Statement.fail (.syntaxNear "DUPLICATE")

/-! ## Removing -/

/-- Removes rows one after another, unless a fault strikes one. -/
def Setting.writeDeletes (s : Setting) (table : Table) :
    List Columns → Except StorageError Unit
  | [] => .ok ()
  | row :: rows => do
    s.write table .delete row
    writeDeletes s table rows

/-- How many rows go and which rows stay, once every removal is written. -/
def removal {ρ : Type} (s : Setting) (table : Table) (columns : ρ → Columns) (goes : ρ → Bool)
    (rows : List ρ) : Except StorageError (Nat × List ρ) := do
  let gone := rows.filter goes
  s.writeDeletes table (gone.map columns)
  pure (gone.length, rows.filter (!goes ·))

/-- What belongs to a user in a table. -/
def Tables.belongings (t : Tables) (user : Int) : Table → List Columns
  | .users => []
  | .dashboards => (((t.dashboards.getD []).filter (·.owner == user)).mergeSort
      fun a b => a.id ≤ b.id).map (·.columns)
  | .tags => ((t.tags.getD []).filter (·.owner == user)).map (·.columns)
  | .recents => ((t.recents.getD []).filter (·.owner == user)).map (·.columns)

/-- Removes everything that belongs to some users, user by user, from the table made last to the one
made first, and there by the numbers of the rows, unless a fault strikes. -/
def Tables.writeCascade (t : Tables) (s : Setting) (users : List Int) :
    Except StorageError Unit :=
  users.forM fun user => t.children.forM fun table =>
    s.writeDeletes table (t.belongings user table)

/-- The tables without what belongs to some users. -/
def Tables.withoutBelongings (t : Tables) (gone : Int → Bool) : Tables :=
  { t with
    dashboards := t.dashboards.map fun rows => rows.filter (!gone ·.owner)
    tags := t.tags.map fun rows => rows.filter (!gone ·.owner)
    recents := t.recents.map fun rows => rows.filter (!gone ·.owner) }

/-- Removes a user with everything that belongs to it, and tells how many users went. -/
def deleteUser (s : Setting) (id : Int) : Statement Nat := do
  let t ← get
  requireRemoval (t.schema s)
  s.permitWriting
  let rows ← t.userRows
  let (count, left) ← removal s .users UserRow.columns (·.id == id) rows
  if count = 0 then pure 0
  else
    t.writeCascade s [id]
    Statement.put { t.withoutBelongings (· == id) with users := some left }
    pure count

/-- Removes a dashboard of an owner, and tells how many went. -/
def deleteDashboard (s : Setting) (owner id : Int) : Statement Nat := do
  let t ← get
  t.ready s .dashboards .delete
  let rows ← t.dashboardRows
  let (count, left) ← removal s .dashboards DashboardRow.columns
    (fun r => r.id == id && r.owner == owner) rows
  Statement.put { t with dashboards := some left }
  pure count

/-- Removes a tag definition of an owner, and tells how many went. -/
def deleteTag (s : Setting) (owner : Int) (key : Cell) : Statement Nat := do
  let t ← get
  t.ready s .tags .delete
  let rows ← t.tagRows
  let (count, left) ← removal s .tags TagRow.columns
    (fun r => r.owner == owner && r.key == key) rows
  Statement.put { t with tags := some left }
  pure count

/-- Removes the recent use of a key, and tells how many went. -/
def deleteRecent (s : Setting) (owner : Int) (key : Cell) : Statement Nat := do
  let t ← get
  t.ready s .recents .delete
  let rows ← t.recentRows
  let (count, left) ← removal s .recents RecentRow.columns (·.isFor owner key) rows
  Statement.put { t with recents := some left }
  pure count

/-! ## Dropping tables -/

/-- The database's own tables, by the names they go by, and the names they are reported by. -/
def keptTables : List (String × String) :=
  [("sqlite_sequence", "sqlite_sequence"), ("sqlite_master", "sqlite_master"),
    ("sqlite_schema", "sqlite_master"), ("sqlite_temp_master", "sqlite_temp_master"),
    ("sqlite_temp_schema", "sqlite_temp_master")]

/-- The table that can be dropped by a name. -/
def droppable (k : Schema) (name : String) : Except StorageError Table :=
  match keptTables.lookup name.toLower with
  | some shown => .error (.keptTable shown)
  | none =>
    match Table.ofName? name with
    | some table => if k.tables.contains table then .ok table else .error (.noSuchTable name)
    | none => .error (.noSuchTable name)

/-- Does a table go row by row? The users do, as long as there is a table of what belongs to
them. -/
def dropsRows (k : Schema) (table : Table) : Bool :=
  table == .users && k.tables.any (· ≠ .users)

/-- What the statement that drops a table needs. -/
def requireDrop (k : Schema) (name : String) : Except StorageError Unit := do
  let table ← droppable k name
  if dropsRows k table then requireCascade k

/-- Removes a table. With the users goes what belongs to them. Tells how many rows went, where they
go one by one. -/
def dropTable (s : Setting) (name : String) : Statement (Option Nat) := do
  let t ← get
  let k := t.schema s
  let table ← droppable k name
  requireDrop k name
  s.permitWriting
  s.setAside
  let left := { t with children := t.children.filter (· ≠ table) }
  match table with
  | .users =>
    let owners := (t.users.getD []).map (·.id)
    if dropsRows k .users then t.writeCascade s (owners.mergeSort fun a b => a ≤ b)
    Statement.put { left.withoutBelongings (owners.contains ·) with users := none, lastUser := 0 }
    pure (if dropsRows k .users then some owners.length else none)
  | .dashboards =>
    Statement.put { left with dashboards := none, lastDashboard := 0 }
    pure none
  | .tags =>
    Statement.put { left with tags := none }
    pure none
  | .recents =>
    Statement.put { left with recents := none }
    pure none

/-! ## Changing -/

/-- Changes the rows that are chosen, one after another, and tells how many they were. A row is
changed to what it would become, unless a fault strikes that or nothing is given for the column. A
row that stays as it is need not be written, unless an index holds the column. -/
def changeRows {ρ : Type} [DecidableEq ρ] (s : Setting) (table : Table) (column : String)
    (indexed : Bool) (chosen : ρ → Bool) (columns : ρ → Given → Columns) (change : ρ → Cell → ρ)
    (value : Given) : List ρ → Except StorageError (Nat × List ρ)
  | [] => .ok (0, [])
  | row :: rows => do
    if chosen row then
      s.permit table .update (columns row value)
      let c ← presentIn table column value
      if indexed || change row c ≠ row then s.setAside
      let (count, rows) ←
        changeRows s table column indexed chosen columns change value rows
      pure (count + 1, change row c :: rows)
    else
      let (count, rows) ←
        changeRows s table column indexed chosen columns change value rows
      pure (count, row :: rows)

/-- Puts the dashboards that are chosen at a position. -/
def setOrder (s : Setting) (chosen : DashboardRow → Bool) (order : Given) : Statement Nat := do
  let t ← get
  t.ready s .dashboards .update
  let rows ← t.dashboardRows
  let (count, rows) ← changeRows s .dashboards "order" true chosen
    (fun r v => Table.dashboards.row r.id
      [some (.integer r.id), some (.integer r.owner), some r.name, v])
    (fun r c => { r with order := c }) (order.map Cell.asInteger) rows
  Statement.put { t with dashboards := some rows }
  pure count

/-- Gives the tag definitions that are chosen another name of a kind. -/
def setTagKind (s : Setting) (chosen : TagRow → Bool) (kind : Given) : Statement Nat := do
  let t ← get
  t.ready s .tags .update
  let rows ← t.tagRows
  let (count, rows) ← changeRows s .tags "tag_type" false chosen
    (fun r v => Table.tags.row r.number [some (.integer r.owner), some r.key, some r.color, v])
    (fun r c => { r with kind := c }) (kind.map Cell.asText) rows
  Statement.put { t with tags := some rows }
  pure count

/-- Gives the recent uses that are chosen another moment. -/
def setLastUsed (s : Setting) (chosen : RecentRow → Bool) (lastUsed : Given) : Statement Nat := do
  let t ← get
  t.ready s .recents .update
  let rows ← t.recentRows
  let (count, rows) ← changeRows s .recents "last_used_at" true chosen
    (fun r v => Table.recents.row r.number [some (.integer r.owner), some r.key, v])
    (fun r c => { r with lastUsed := c }) (lastUsed.map Cell.asInteger) rows
  Statement.put { t with recents := some rows }
  pure count

end Pinboard.Store
