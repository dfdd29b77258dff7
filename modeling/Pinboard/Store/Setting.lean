import Pinboard.Store.StorageError

/-!
# What surrounds a statement

Some things can make a statement fail that would succeed on its own: faults set on rows, a lock that
another connection holds, a database that can only be read, and files beside it that stand in the
way.
-/

namespace Pinboard.Store

/-- What happens to a row. -/
inductive RowEvent where
  /-- It is inserted. -/
  | insert
  /-- It is changed. -/
  | update
  /-- It is removed. -/
  | delete
  deriving DecidableEq, Repr

/-- A fault: an event on a table that is made to fail. -/
structure Fault where
  /-- The number, larger than that of any fault set before. -/
  number : Nat
  /-- The table. -/
  table : Table
  /-- The event. -/
  event : RowEvent
  /-- Only rows with this value in this column are struck. -/
  only : Option (String × Given)
  /-- The message it fails with. -/
  message : String
  deriving DecidableEq

/-- The value that a column is compared with. The number of a row is compared with the number that
a text stands for; any other column only with the value as it is. -/
def wantedCell (column : String) (c : Cell) : Cell :=
  if column == "id" || column == rowNumberColumn then c.asInteger else c

/-- Does the fault strike an event on a row? A missing value equals nothing. -/
def Fault.strikes (f : Fault) (table : Table) (event : RowEvent) (row : Columns) : Bool :=
  f.table == table && f.event == event &&
    match f.only with
    | none => true
    | some (column, some wanted) =>
      match row.lookup (columnName column) with
      | some (some c) => c.compare (wantedCell (columnName column) wanted) == .eq
      | _ => false
    | some (_, none) => false

/-- Which side of a change a fault looks at. -/
def RowEvent.side : RowEvent → String
  | insert => "NEW"
  | update => "NEW"
  | delete => "OLD"

/-- The column a fault names that its table does not have, if there is one. -/
def Fault.strayColumn? (f : Fault) : Option String :=
  match f.only with
  | some (column, _) =>
    let side := f.event.side
    if f.table.hasColumn column then none else some s!"{side}.{column}"
  | none => none

/-- What can be known of a database without looking at its rows. -/
structure Schema where
  /-- The tables, those of what belongs to users in the order that their rows go in with a user. -/
  tables : List Table := []
  /-- The faults, the one set last first. -/
  faults : List Fault := []
  deriving DecidableEq

/-- No fault on such an event may name a column that is not there. -/
def Schema.sound (k : Schema) (table : Table) (event : RowEvent) : Except StorageError Unit :=
  match (k.faults.filter fun f => f.table == table && f.event == event).findSome?
      Fault.strayColumn? with
  | some name => .error (.noSuchColumn name)
  | none => .ok ()

/-- A lock that another connection holds. -/
inductive Lock where
  /-- None. -/
  | none
  /-- It reads: no transaction that writes can take effect until it is done, whether it has changed
  anything or not. -/
  | shared
  /-- It is about to write: no other transaction that writes can begin. -/
  | reserved
  /-- It writes: nothing can be read or written. -/
  | exclusive
  deriving DecidableEq, Repr

namespace Lock

/-- Can a transaction that writes begin? -/
def admitsWriter : Lock → Bool
  | none => true
  | shared => true
  | _ => false

/-- Can a transaction that writes take effect? -/
def admitsCommit : Lock → Bool
  | none => true
  | _ => false

/-- Can anything be read? -/
def admitsReader : Lock → Bool
  | exclusive => false
  | _ => true

end Lock

/-- What surrounds a statement. -/
structure Setting where
  /-- The faults, the one set last first. -/
  faults : List Fault := []
  /-- The lock that another connection holds. -/
  lock : Lock := .none
  /-- The database can only be read. -/
  readOnly : Bool := false
  /-- What stands in the way of reading. -/
  unreadable : Option StorageError := none
  /-- What stands in the way of putting aside what a change overwrites. -/
  unwritable : Option StorageError := none
  deriving DecidableEq

namespace Setting

/-- Nothing stands in the way. -/
def clear : Setting := {}

/-- Lets an event on a row happen unless a fault strikes it. -/
def permit (s : Setting) (table : Table) (event : RowEvent) (row : Columns) :
    Except StorageError Unit :=
  match s.faults.find? (·.strikes table event row) with
  | some f => .error (.struck f.message)
  | none => .ok ()

/-- Begins to read. -/
def beginReading (s : Setting) : Except StorageError Unit :=
  if s.lock.admitsReader then
    match s.unreadable with
    | some e => .error e
    | none => .ok ()
  else .error .locked

/-- Can the tables be looked at? -/
def admitsReading (s : Setting) : Bool := s.beginReading.isOk

/-- Begins to write. -/
def beginWriting (s : Setting) : Except StorageError Unit := do
  s.beginReading
  if s.lock.admitsWriter then .ok () else .error .locked

/-- Begins a transaction. Where the database can only be read, it only reads. -/
def beginTransaction (s : Setting) : Except StorageError Unit :=
  if s.readOnly then s.beginReading else s.beginWriting

/-- A statement that changes rows can run. -/
def permitWriting (s : Setting) : Except StorageError Unit :=
  if s.readOnly then .error .readOnly else .ok ()

/-- Puts what a change overwrites aside, so that it can be undone. No row is written before that. -/
def setAside (s : Setting) : Except StorageError Unit :=
  match s.unwritable with
  | some e => .error e
  | none => .ok ()

/-- Writes an event on a row that no fault strikes. -/
def write (s : Setting) (table : Table) (event : RowEvent) (row : Columns) :
    Except StorageError Unit := do
  s.permit table event row
  s.setAside

/-- Is a fault set on an event, whichever rows it strikes? -/
def watches (s : Setting) (table : Table) (event : RowEvent) : Bool :=
  s.faults.any fun f => f.table == table && f.event == event

/-- Lets a transaction take effect, which has changed something or not. -/
def commit (s : Setting) : Except StorageError Unit :=
  if s.readOnly || s.lock.admitsCommit then .ok () else .error .locked

end Setting

end Pinboard.Store
