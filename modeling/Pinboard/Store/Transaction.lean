import Pinboard.Store.Refusal
import Pinboard.Store.Statement

/-!
# Transactions

An operation answers and leaves tables behind. It is made of steps that take effect together at its
end, or not at all: a refusal anywhere leaves the tables as they were. What a connection remembers
between operations is no part of the tables: which tables and faults it saw when it last looked, and
how many rows its last change touched. A statement is prepared against what is remembered, and only
a table that cannot be found there makes the connection look anew before the statement runs.
-/

namespace Pinboard.Store

/-- A connection to the tables. -/
structure Connection where
  /-- The tables as they are. -/
  tables : Tables
  /-- What the connection saw when it last looked. -/
  known : Schema
  /-- The rows that its last change touched. -/
  changed : Nat := 0
  deriving DecidableEq

/-- An operation: an answer or a refusal, and what it leaves behind. -/
abbrev Operation (α : Type) := Connection → Except Refusal α × Connection

/-- The steps of a transaction, any of which may be refused. The tables are the transaction's own
until it takes effect; the number of rows that the last change touched outlives a refusal. -/
abbrev Steps := StateT Tables (ExceptT Refusal (StateM Nat))

namespace Steps

/-- Ends in a refusal. -/
def refuse {α : Type} (r : Refusal) : Steps α := fun _ changed => (.error r, changed)

/-- A question to the tables. -/
def ask {α : Type} (f : Tables → Except StorageError α) : Steps α := fun t changed =>
  match f t with
  | .ok a => (.ok (a, t), changed)
  | .error e => (.error (.storage e), changed)

/-- A statement that changes rows, as many as `count` tells. Its failure becomes the refusal that
`blame` makes of it; a statement that fails while it runs has touched none. -/
def tryWith {α : Type} (blame : StorageError → Refusal) (count : α → Nat) (s : Statement α) :
    Steps α := fun t changed =>
  match s t with
  | .ok (a, t) => (.ok (a, t), count a)
  | .error e => (.error (blame e), if e.isEarly then changed else 0)

/-- A statement that changes one row; its failure is the database's. -/
def change {α : Type} (s : Statement α) : Steps α := tryWith .storage (fun _ => 1) s

/-- A statement that tells how many rows it changes; its failure is the database's. -/
def changeMany (s : Statement Nat) : Steps Nat := tryWith .storage id s

/-- A statement that does not change rows one by one. -/
def define {α : Type} (s : Statement α) : Steps α := fun t changed =>
  match s t with
  | .ok (a, t) => (.ok (a, t), changed)
  | .error e => (.error (.storage e), changed)

end Steps

/-- An operation that is refused before it reaches the database. -/
def refused {α : Type} (r : Refusal) : Operation α := fun c => (.error r, c)

namespace Connection

/-- The connection after it has looked at the tables. -/
def look (c : Connection) (s : Setting) : Connection := { c with known := c.tables.schema s }

/-- Prepares a statement against what is remembered. Where that does not do, the connection looks at
the tables, if it can. -/
def prepare (c : Connection) (s : Setting) (needs : Schema → Except StorageError Unit) :
    Except StorageError Unit × Connection :=
  match needs c.known with
  | .ok () => (.ok (), c)
  | .error e =>
    if e.isDoubtful && s.admitsReading then (needs (c.tables.schema s), c.look s)
    else (.error e, c)

end Connection

/-- Steps whose beginning is permitted, which take effect together if their answer is one that
`lasts`, and otherwise not at all. -/
def runSteps {α : Type} (s : Setting) (lasts : α → Bool) (steps : Steps α) : Operation α :=
  fun c =>
  match steps c.tables c.changed with
  | (.error r, changed) => (.error r, { c.look s with changed := changed })
  | (.ok (a, tables), changed) =>
    if lasts a then
      match s.commit with
      | .ok () => (.ok a, ⟨tables, tables.schema s, changed⟩)
      | .error e => (.error (.storage e), { c.look s with changed := changed })
    else (.ok a, { c.look s with changed := changed })

/-- Steps that take effect together if their answer is one that `lasts`, and otherwise not at all.
They cannot begin, and cannot take effect, where a lock forbids it. -/
def transactionIf {α : Type} (s : Setting) (lasts : α → Bool) (steps : Steps α) : Operation α :=
  fun c =>
  match s.beginTransaction with
  | .error e => (.error (.storage e), c)
  | .ok () => runSteps s lasts steps c

/-- Steps that take effect together. -/
def transaction {α : Type} (s : Setting) (steps : Steps α) : Operation α :=
  transactionIf s (fun _ => true) steps

/-- Steps that take effect together, the first of which changes rows. It is prepared once they have
begun. -/
def transactionFrom {α : Type} (s : Setting) (needs : Schema → Except StorageError Unit)
    (steps : Steps α) : Operation α := fun c =>
  match s.beginTransaction with
  | .error e => (.error (.storage e), c)
  | .ok () =>
    match c.prepare s needs, s.permitWriting with
    | (.error e, c), _ => (.error (.storage e), c)
    | (.ok (), c), .error e => (.error (.storage e), c)
    | (.ok (), c), .ok () => runSteps s (fun _ => true) steps c

/-- A single statement as a transaction of its own, where `rowwise` if it changes rows one by one.
That it can be prepared is checked before anything else, and once more with the tables as they
are. -/
def autocommit {α : Type} (s : Setting) (rowwise : Bool)
    (needs : Schema → Except StorageError Unit) (steps : Steps α) : Operation α := fun c =>
  match c.prepare s needs with
  | (.error e, c) => (.error (.storage e), c)
  | (.ok (), c) =>
    let failed : Connection := if rowwise then { c with changed := 0 } else c
    match s.permitWriting, s.beginWriting, needs (c.tables.schema s) with
    | .error e, _, _ => (.error (.storage e), failed)
    | _, .error e, _ => (.error (.storage e), failed)
    | _, _, .error e => (.error (.storage e), c.look s)
    | .ok (), .ok (), .ok () =>
      match runSteps s (fun _ => true) steps c with
      | (.error r, c) => (.error r, if rowwise then { c with changed := 0 } else c)
      | done => done

/-- A question to the tables, which changes nothing. That it can be prepared is checked before any
lock. -/
def inspect {α : Type} (s : Setting) (needs : Schema → Except StorageError Unit)
    (question : Tables → Except Refusal α) : Operation α := fun c =>
  match c.prepare s needs with
  | (.error e, c) => (.error (.storage e), c)
  | (.ok (), c) =>
    match s.beginReading, needs (c.tables.schema s) with
    | .error e, _ => (.error (.storage e), c)
    | _, .error e => (.error (.storage e), c.look s)
    | .ok (), .ok () => (question c.tables, c.look s)

/-- An answer that only the database can refuse. -/
def fromStorage {α : Type} : Except StorageError α → Except Refusal α
  | .ok a => .ok a
  | .error e => .error (.storage e)

/-- The answer of an operation looked at once it is done, which may find a reason to refuse. -/
def Operation.judge {α β : Type} (op : Operation α) (verdict : α → Except Refusal β) :
    Operation β := fun c =>
  match op c with
  | (.ok a, c) => (verdict a, c)
  | (.error r, c) => (.error r, c)

/-- A number of 32 bits as one of 64. -/
def wide (n : UInt32) : Int := n.toNat

/-- A number of 64 bits cut to the 32 lowest. -/
def cut32 (n : Int) : UInt32 := UInt32.ofNat (n % 4294967296).toNat

end Pinboard.Store
