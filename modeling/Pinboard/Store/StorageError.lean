import Pinboard.Store.Tables

/-!
# What a database refuses

The causes for which a statement fails, with their wording.
-/

namespace Pinboard.Store

/-- Why a statement fails. -/
inductive StorageError where
  /-- The table is missing. -/
  | noSuchTable (name : String)
  /-- The table of users, which another table refers to, is missing. -/
  | noParentTable
  /-- Columns that have to be unique would not be. -/
  | notUnique (table : Table) (columns : List String)
  /-- A column would be left without a value. -/
  | notNull (table : Table) (column : String)
  /-- A row would refer to a user that is not there. -/
  | noParentRow
  /-- A fault that was set on the row struck. -/
  | struck (message : String)
  /-- A row's number is no whole number. -/
  | mismatch
  /-- The numbers for rows are used up. -/
  | full
  /-- Another connection holds a lock. -/
  | locked
  /-- The statement cannot be read. -/
  | syntaxNear (word : String)
  /-- A stored number does not fit where it is read. -/
  | outOfRange (value : Int) (column : Nat)
  /-- A stored value has another type than is read. -/
  | wrongType (found : Cell) (column : Nat) (name : String)
  /-- The file holds something else. -/
  | notADatabase
  /-- A fault names a column that its table does not have. -/
  | noSuchColumn (name : String)
  /-- The table is one of the database's own. -/
  | keptTable (name : String)
  /-- The table is one that no fault can be set on. -/
  | faultlessTable
  /-- The database can only be read. -/
  | readOnly
  /-- A file that the database needs cannot be opened. -/
  | cannotOpen
  /-- A file that the database needs cannot be read or removed. -/
  | ioError
  deriving DecidableEq

namespace StorageError

/-- Is the cause a rule that rows have to obey, or a fault that stands for one? -/
def isConstraint : StorageError → Bool
  | notUnique _ _ => true
  | notNull _ _ => true
  | noParentRow => true
  | struck _ => true
  | _ => false

/-- Is it found out before the statement runs? -/
def isEarly : StorageError → Bool
  | noSuchTable _ => true
  | noParentTable => true
  | noSuchColumn _ => true
  | syntaxNear _ => true
  | _ => false

/-- Is it a reason to look at the tables anew before it is believed? -/
def isDoubtful : StorageError → Bool
  | noSuchTable _ => true
  | noParentTable => true
  | _ => false

/-- The wording of a cause. -/
def message : StorageError → String
  | noSuchTable name => s!"no such table: {name}"
  | noParentTable => "no such table: main.users"
  | notUnique table columns =>
    let shown := ", ".intercalate (columns.map fun column => table.name ++ "." ++ column)
    s!"UNIQUE constraint failed: {shown}"
  | notNull table column =>
    let name := table.name
    s!"NOT NULL constraint failed: {name}.{column}"
  | noParentRow => "FOREIGN KEY constraint failed"
  | struck message => message
  | mismatch => "datatype mismatch"
  | full => "database or disk is full"
  | locked => "database is locked"
  | syntaxNear word => s!"near \"{word}\": syntax error"
  | outOfRange value column => s!"Integer {value} out of range at index {column}"
  | wrongType found column name =>
    let type := found.typeName
    s!"Invalid column type {type} at index: {column}, name: {name}"
  | notADatabase => "file is not a database"
  | noSuchColumn name => s!"no such column: {name}"
  | keptTable name => s!"table {name} may not be dropped"
  | faultlessTable => "cannot create trigger on system table"
  | readOnly => "attempt to write a readonly database"
  | cannotOpen => "unable to open database file"
  | ioError => "disk I/O error"

end StorageError

/-! ## Reading cells -/

/-- The number in a cell. -/
def Cell.readInteger (c : Cell) (column : Nat) (name : String) : Except StorageError Int :=
  match c with
  | .integer n => .ok n
  | _ => .error (.wrongType c column name)

/-- The text in a cell. -/
def Cell.readText (c : Cell) (column : Nat) (name : String) : Except StorageError String :=
  match c with
  | .text s => .ok s
  | _ => .error (.wrongType c column name)

/-- A number as one of 32 bits without a sign. -/
def readUInt32 (n : Int) (column : Nat) : Except StorageError UInt32 :=
  if 0 ≤ n ∧ n ≤ 4294967295 then .ok (UInt32.ofNat n.toNat) else .error (.outOfRange n column)

/-- A number as one of 32 bits with a sign. -/
def readInt32 (n : Int) (column : Nat) : Except StorageError Int32 :=
  if -2147483648 ≤ n ∧ n ≤ 2147483647 then .ok (Int32.ofInt n) else .error (.outOfRange n column)

end Pinboard.Store
