import Pinboard.Json.Skip

/-!
# Reading values of known types

Readers for strings, bounded whole numbers, named choices and records. A record is given as an
object, its fields in any order among unknown ones, or as an array of its fields in order.
-/

namespace Pinboard.Json

namespace Reader

/-! ## Scalars -/

/-- Reads a string; `expected` names it in complaints. -/
def string (expected : String) : Reader String := located do
  match ← token with
  | none => failNext .endInValue
  | some '"' =>
    skip 1
    text
  | some _ => mismatch expected

/-- Reads a string and makes a value of it. -/
def stringWith {α : Type} (expected : String) (make : String → Except Problem α) : Reader α :=
  located do
    match make (← string expected) with
    | .ok a => pure a
    | .error p => complain p

/-- Reads a whole number between two bounds. -/
def integer (low high : Int) (expected : String) : Reader Int := located do
  match ← token with
  | none => failNext .endInValue
  | some _ =>
    match ← signedNumber? with
    | none => mismatch expected
    | some (.double x) => complain (.wrongType (.double x) expected)
    | some (.integer n) =>
      if low ≤ n ∧ n ≤ high then pure n else complain (.wrongValue (.integer n) expected)

/-- Reads an unsigned number of 32 bits. -/
def uint32 : Reader UInt32 := do
  let n ← integer 0 4294967295 "u32"
  pure (UInt32.ofNat n.toNat)

/-- Reads a signed number of 32 bits. -/
def int32 : Reader Int32 := do
  let n ← integer (-2147483648) 2147483647 "i32"
  pure (Int32.ofInt n)

/-- Reads an unsigned number of 64 bits. -/
def uint64 : Reader UInt64 := do
  let n ← integer 0 18446744073709551615 "u64"
  pure (UInt64.ofNat n.toNat)

/-- Reads `null`. -/
def null : Reader Unit := located do
  match ← token with
  | none => failNext .endInValue
  | some 'n' =>
    skip 1
    literal ['u', 'l', 'l']
  | some _ => mismatch "unit"

/-- Reads the colon after a key. -/
def colon : Reader Unit := do
  match ← token with
  | none => failNext .endInObject
  | some ':' => skip 1
  | some _ => failNext .expectedColon

/-! ## Choices -/

/-- The choice with a given name. Several names may stand for one choice; a complaint lists all of
them in order. -/
def choose {α : Type} (choices : List (String × α)) (name : String) : Except Problem α :=
  match choices.lookup name with
  | some a => .ok a
  | none => .error (.unknownVariant name (choices.map (·.1)))

/-- Reads the end of an object that holds one choice. -/
def choiceEnd : Reader Unit := do
  match ← token with
  | some '\x7d' => skip 1
  | some _ => fail .expectedValue
  | none => fail .endInObject

/-- Reads the key of an object that holds one choice. -/
def choiceKey {α : Type} (choices : List (String × α)) : Reader α := do
  match ← token with
  | some '"' => stringWith "variant identifier" (choose choices)
  | some '\x7d' => failNext .expectedValue
  | some _ => failNext .keyMustBeText
  | none => failNext .endInObject

/-- Reads one of several names, given as a string or as the key of an object whose value is
`null`. -/
def choice {α : Type} (choices : List (String × α)) : Reader α := do
  match ← token with
  | some '"' => stringWith "variant identifier" (choose choices)
  | some '\x7b' =>
    skip 1
    let a ← choiceKey choices
    colon
    null
    choiceEnd
    pure a
  | some _ => failNext .expectedValue
  | none => failNext .endInValue

/-- Reads one of several names together with a text, as an object with the name for its only
key. -/
def choiceWithText {α : Type} (choices : List (String × (String → α))) : Reader α := do
  match ← token with
  | some '"' =>
    let _ ← stringWith "variant identifier" (choose choices)
    complain (.wrongType .bareVariant "newtype variant")
  | some '\x7b' =>
    skip 1
    let make ← choiceKey choices
    colon
    let s ← string "a string"
    choiceEnd
    pure (make s)
  | some _ => failNext .expectedValue
  | none => failNext .endInValue

end Reader

/-! ## What a record looks like -/

/-- A field of a record that is being read; `σ` holds what has been read so far. -/
structure Field (σ : Type) where
  /-- The key of the field. -/
  name : String
  /-- Has the field been read? -/
  filled : σ → Bool
  /-- Reads the value of the field. -/
  read : σ → Reader σ

/-- A field whose value goes into a slot that is empty at first. -/
def Field.slot {σ β : Type} (name : String) (get : σ → Option β) (set : σ → β → σ)
    (r : Reader β) : Field σ :=
  ⟨name, fun s => (get s).isSome, fun s => do pure (set s (← r))⟩

/-- What a record looks like and how it is made of its fields. -/
structure Shape (σ α : Type) where
  /-- The name of the record in complaints. -/
  name : String
  /-- Nothing read yet. -/
  start : σ
  /-- The fields in order. -/
  fields : List (Field σ)
  /-- Every field has to be given. -/
  strict : Bool
  /-- Makes the record, or names a field that is missing. -/
  finish : σ → Except Problem α

namespace Reader

/-! ## Reading records -/

variable {σ α : Type}

/-- Looks for another element of an array. -/
def nextElement (first : Bool) : Reader Bool := do
  match ← token with
  | none => failNext .endInList
  | some ']' => pure false
  | some c =>
    if first then pure true
    else if c = ',' then
      skip 1
      match ← token with
      | some ']' => failNext .trailingComma
      | some _ => pure true
      | none => failNext .endInValue
    else failNext .expectedListEnd

/-- Reads the elements of an array into the fields, in order. -/
def elements (shape : Shape σ α) (done : Nat) : List (Field σ) → σ → Reader σ
  | [], s => pure s
  | field :: fields, s => do
    if ← nextElement (done == 0) then
      elements shape (done + 1) fields (← field.read s)
    else if shape.strict then
      let count := shape.fields.length
      complain (.wrongLength done s!"{shape.name} with {count} elements")
    else pure s

/-- Looks for another key of an object, and reads it if there is one. -/
def nextKey (first : Bool) : Reader (Option String) := do
  match ← token with
  | none => failNext .endInObject
  | some '\x7d' => pure none
  | some c =>
    if first then
      if c = '"' then
        skip 1
        some <$> text
      else failNext .keyMustBeText
    else if c = ',' then
      skip 1
      match ← token with
      | some '"' =>
        skip 1
        some <$> text
      | some '\x7d' => failNext .trailingComma
      | some _ => failNext .keyMustBeText
      | none => failNext .endInValue
    else failNext .expectedObjectEnd

/-- Reads one member of an object into its field, or skips it if it has none. -/
def member (fields : List (Field σ)) (first : Bool) (s : σ) : Reader (Option σ) := do
  match ← nextKey first with
  | none => pure none
  | some key =>
    match fields.find? (·.name == key) with
    | some field =>
      if field.filled s then complain (.duplicateField key)
      else
        colon
        some <$> field.read s
    | none =>
      colon
      skipValue
      pure (some s)

/-- Reads the members of an object. -/
def membersFrom (fields : List (Field σ)) (first : Bool) (s : σ) (c : Cursor) :
    Except Stop (σ × Cursor) :=
  match member fields first s c with
  | .error stop => .error stop
  | .ok (none, past) => .ok (s, past)
  | .ok (some s', past) =>
    if past.rest.length < c.rest.length then membersFrom fields false s' past
    else .error (.at .expectedValue past.position)
termination_by c.rest.length

/-- Makes the record of its fields. -/
def finished (shape : Shape σ α) (s : σ) : Reader α :=
  match shape.finish s with
  | .ok a => pure a
  | .error p => complain p

/-- The end of an array, and the cursor it leads to even where the end is not found. -/
def listEnd (c : Cursor) : Option Stop × Cursor :=
  let c := c.drop (c.rest.takeWhile isSpace).length
  match c.rest with
  | [] => (some (.at .endInList c.position), c)
  | ']' :: _ => (none, c.drop 1)
  | ',' :: _ =>
    let c := c.drop 1
    let c := c.drop (c.rest.takeWhile isSpace).length
    match c.rest with
    | ']' :: _ => (some (.at .trailingComma c.nextByte), c)
    | _ => (some (.at .trailingCharacters c.nextByte), c)
  | _ => (some (.at .trailingCharacters c.nextByte), c)

/-- The end of an object, and the cursor it leads to even where the end is not found. -/
def objectEnd (c : Cursor) : Option Stop × Cursor :=
  let c := c.drop (c.rest.takeWhile isSpace).length
  match c.rest with
  | [] => (some (.at .endInObject c.position), c)
  | '\x7d' :: _ => (none, c.drop 1)
  | ',' :: _ => (some (.at .trailingComma c.nextByte), c)
  | _ => (some (.at .trailingCharacters c.nextByte), c)

/-- Reads a body and then its end. A complaint about the body stands before one about the end, and
is placed after the end. -/
def enclosed (body : Reader α) (close : Cursor → Option Stop × Cursor) : Reader α := fun c =>
  match body c with
  | .ok (a, past) =>
    match close past with
    | (none, after) => .ok (a, after)
    | (some stop, _) => .error stop
  | .error (.pending p past) => .error (.pending p (close past).2)
  | .error stop => .error stop

/-- Reads a record. -/
def record (shape : Shape σ α) : Reader α := located do
  match ← token with
  | none => failNext .endInValue
  | some '[' =>
    skip 1
    enclosed (do finished shape (← elements shape 0 shape.fields shape.start)) listEnd
  | some '\x7b' =>
    skip 1
    enclosed (do finished shape (← membersFrom shape.fields true shape.start)) objectEnd
  | some _ => mismatch shape.name

/-! ## Whole texts -/

/-- Reads a value that has to be the whole text. -/
def whole (r : Reader α) (s : String) : Except Stop α :=
  match (do let a ← r; blanks; pure a : Reader α) (Cursor.ofText s) with
  | .error stop => .error stop
  | .ok (a, ⟨[], _⟩) => .ok a
  | .ok (_, c) => .error (.at .trailingCharacters c.nextByte)

end Reader

end Pinboard.Json
