import Pinboard.Json.Problem
import Pinboard.Text.Hex

/-!
# Reading JSON

A reader takes what it reads off the front of a text and keeps the place it has come to. The tokens
are read here: blanks, literals, strings and numbers. A reader that finds fault stops; problems with
the text know their place at once, problems with a value get theirs from the reader around it
(`Reader.located`).
-/

namespace Pinboard.Json

/-! ## Places -/

/-- The place after one more character. -/
def Position.after (p : Position) (c : Char) : Position :=
  if c = '\n' then ⟨p.line + 1, 0⟩ else ⟨p.line, p.column + c.utf8Size⟩

/-- The place after a number of bytes of a text, if it has that many. -/
def Position.afterBytes : Nat → List Char → Position → Option Position
  | 0, _, p => some p
  | _ + 1, [], _ => none
  | n + 1, c :: cs, p =>
    if c.utf8Size ≤ n + 1 then afterBytes (n + 1 - c.utf8Size) cs (p.after c)
    else some ⟨p.line, p.column + (n + 1)⟩

/-- The text that is left and the place where it begins. -/
structure Cursor where
  /-- The characters that are left. -/
  rest : List Char
  /-- The place of the first of them. -/
  position : Position
  deriving DecidableEq, Repr

namespace Cursor

/-- The beginning of a text. -/
def ofText (s : String) : Cursor := ⟨s.toList, 1, 0⟩

/-- The place one byte further on; at the end, the end. -/
def nextByte (c : Cursor) : Position :=
  match c.rest with
  | [] => c.position
  | ch :: _ =>
    if ch = '\n' then ⟨c.position.line + 1, 0⟩
    else ⟨c.position.line, c.position.column + 1⟩

/-- The cursor with a number of characters taken off. -/
def drop : Nat → Cursor → Cursor
  | 0, c => c
  | n + 1, ⟨ch :: cs, p⟩ => drop n ⟨cs, p.after ch⟩
  | _ + 1, ⟨[], p⟩ => ⟨[], p⟩

/-- The place after the whole text. -/
def endPosition (c : Cursor) : Position := c.rest.foldl Position.after c.position

end Cursor

/-! ## Readers -/

/-- Where reading stopped, and why. -/
inductive Stop where
  /-- A problem with its place. -/
  | at (problem : Problem) (position : Position)
  /-- A problem that has no place yet, and the cursor where it was found. -/
  | pending (problem : Problem) (cursor : Cursor)

/-- The wording with the place, if there is one. -/
def Stop.message : Stop → String
  | .at problem ⟨line, column⟩ =>
    let shown := problem.message
    s!"{shown} at line {line} column {column}"
  | .pending problem _ => problem.message

/-- A reader of values of some type. -/
abbrev Reader := StateT Cursor (Except Stop)

namespace Reader

/-- Stops at the present place. -/
def fail {α : Type} (p : Problem) : Reader α := fun c => .error (.at p c.position)

/-- Stops at the place one byte further on, the byte that was looked at. -/
def failNext {α : Type} (p : Problem) : Reader α := fun c => .error (.at p c.nextByte)

/-- Stops for a reason that lies in the value and has no place of its own. -/
def complain {α : Type} (p : Problem) : Reader α := fun c => .error (.pending p c)

/-- Gives a problem without a place the place that the reader had come to. -/
def located {α : Type} (r : Reader α) : Reader α := fun c =>
  match r c with
  | .error (.pending p c') => .error (.at p c'.position)
  | result => result

/-- The next character, which stays. -/
def peek : Reader (Option Char) := fun c => .ok (c.rest.head?, c)

/-- Takes a number of characters off. -/
def skip (n : Nat) : Reader Unit := fun c => .ok ((), c.drop n)

/-- The blanks between tokens. -/
def isSpace (c : Char) : Bool := c == ' ' || c == '\n' || c == '\t' || c == '\r'

/-- Skips blanks. -/
def blanks : Reader Unit := fun c => .ok ((), c.drop (c.rest.takeWhile isSpace).length)

/-- Skips blanks and looks at what follows. -/
def token : Reader (Option Char) := do
  blanks
  peek

/-- Reads the given characters, the rest of a literal. -/
def literal : List Char → Reader Unit
  | [] => pure ()
  | expected :: more => do
    match ← peek with
    | none => fail .endInValue
    | some c => if c = expected then skip 1 else failNext .expectedIdent
    literal more

/-! ### Strings -/

/-- The value of four hexadecimal digits at the head of a text. -/
def hexFour? : List Char → Option Nat
  | a :: b :: c :: d :: _ => do
    pure ((← Text.hexByte? a b) * 256 + (← Text.hexByte? c d))
  | _ => none

/-- Reads the four hexadecimal digits of an escape. Four bytes are needed before they are looked
at. -/
def hexDigits : Reader Nat := fun c =>
  match Position.afterBytes 4 c.rest c.position with
  | none => .error (.at .endInText c.endPosition)
  | some past =>
    match hexFour? c.rest with
    | some n => .ok (n, c.drop 4)
    | none => .error (.at .invalidEscape past)

/-- Reads one character of the escape that has to follow a leading surrogate. -/
def surrogateMark (expected : Char) : Reader Unit := do
  match ← peek with
  | none => fail .endInText
  | some c => if c = expected then skip 1 else failNext .endOfHexEscape

/-- Reads the digits of a hexadecimal escape, and the second half of a surrogate pair after a first
one. -/
def hexEscape : Reader Char := do
  let n ← hexDigits
  if 0xDC00 ≤ n ∧ n ≤ 0xDFFF then fail .loneSurrogate
  else if n < 0xD800 ∨ 0xDBFF < n then pure (Char.ofNat n)
  else
    surrogateMark '\\'
    surrogateMark 'u'
    let low ← hexDigits
    if low < 0xDC00 ∨ 0xDFFF < low then fail .loneSurrogate
    else pure (Char.ofNat ((n - 0xD800) * 0x400 + (low - 0xDC00) + 0x10000))

/-- The characters that have a one-letter escape. -/
def shortEscape? : Char → Option Char
  | '"' => some '"'
  | '\\' => some '\\'
  | '/' => some '/'
  | 'b' => some '\x08'
  | 'f' => some '\x0c'
  | 'n' => some '\n'
  | 'r' => some '\r'
  | 't' => some '\t'
  | _ => none

/-- Reads what follows a backslash. -/
def escape : Reader Char := do
  match ← peek with
  | none => fail .endInText
  | some 'u' =>
    skip 1
    hexEscape
  | some c =>
    match shortEscape? c with
    | some x =>
      skip 1
      pure x
    | none => failNext .invalidEscape

/-- Reads up to the closing quote; `done` holds the characters read so far, the last one first. -/
def textFrom (done : List Char) : Cursor → Except Stop (String × Cursor)
  | ⟨[], p⟩ => .error (.at .endInText p)
  | ⟨c :: more, p⟩ =>
    let next : Cursor := ⟨more, p.after c⟩
    if c = '"' then .ok (String.ofList done.reverse, next)
    else if c = '\\' then
      match escape next with
      | .error stop => .error stop
      | .ok (x, past) =>
        if past.rest.length ≤ more.length then textFrom (x :: done) past
        else .error (.at .invalidEscape past.position)
    else if c.toNat < 0x20 then .error (.at .controlCharacter next.position)
    else textFrom (c :: done) next
termination_by c => c.rest.length
decreasing_by
  all_goals simp only [List.length_cons]; omega

/-- Reads a string whose opening quote has been read. -/
def text : Reader String := textFrom []

/-! ### Numbers -/

/-- A number as it is written: a whole number of 64 bits, or else the double nearest to it. -/
inductive Number where
  /-- A whole number from `-2 ^ 63` to `2 ^ 64 - 1`, the negative zero excepted. -/
  | integer (n : Int)
  /-- Any other number. -/
  | double (x : Decimal.Double)
  deriving DecidableEq

/-- The digits that stand next, which stay. -/
def upcomingDigits : Reader (List Char) := fun c => .ok (c.rest.takeWhile Char.isDigit, c)

/-- Reads the digits that stand next. -/
def digits : Reader (List Char) := do
  let ds ← upcomingDigits
  skip ds.length
  pure ds

/-- The largest significand that is kept. -/
def greatestSignificand : Nat := 18446744073709551615

/-- Extends a significand by digits while it fits 64 bits, and tells how many digits did not. -/
def absorb (significand : Nat) : List Char → Nat × Nat
  | [] => (significand, 0)
  | d :: ds =>
    let wider := significand * 10 + (d.toNat - 48)
    if wider ≤ greatestSignificand then absorb wider ds else (significand, ds.length + 1)

/-- Divides by powers of ten in steps of `10 ^ 308`, as long as the quotient is not zero. -/
def divideDown (x : Decimal.Double) (e : Nat) : Nat → Option Decimal.Double
  | 0 => some (Decimal.Double.zero false)
  | fuel + 1 => do
    if e ≤ 308 then
      x.div? (← Decimal.Double.ofDecimal? false 1 e)
    else if x.isZero then pure x
    else
      divideDown (← x.div? (← Decimal.Double.ofDecimal? false 1 308)) (e - 308) fuel

/-- The double for a significand and a power of ten: one product or quotient with the double
nearest to that power. -/
def fromParts (negative : Bool) (significand : Nat) (e : Int) : Option Decimal.Double := do
  let x ← Decimal.Double.ofRatio? false significand 1
  let magnitude ←
    if 0 ≤ e then
      if e ≤ 308 then x.mul? (← Decimal.Double.ofDecimal? false 1 e)
      else if x.isZero then pure x else none
    else divideDown x e.natAbs 4
  pure { magnitude with negative := negative }

/-- The double for a significand and a power of ten, or a stop if it is too large. -/
def double (negative : Bool) (significand : Nat) (e : Int) : Reader Number :=
  match fromParts negative significand e with
  | some x => pure (.double x)
  | none => fail .numberOutOfRange

/-- The largest exponent that is kept. -/
def greatestExponent : Nat := 2147483647

/-- Splits digits where their number first exceeds the largest exponent, after the digit that does
it. -/
def exponentDigits (value : Nat) : List Char → Nat × Option (List Char)
  | [] => (value, none)
  | d :: ds =>
    let wider := value * 10 + (d.toNat - 48)
    if wider ≤ greatestExponent then exponentDigits wider ds else (wider, some ds)

/-- Reads an exponent, whose letter stands next, and makes the number. -/
def exponent (negative : Bool) (significand : Nat) (start : Int) : Reader Number := do
  skip 1
  let down ← match ← peek with
    | some '+' => do skip 1; pure false
    | some '-' => do skip 1; pure true
    | _ => pure false
  match ← peek with
  | none => fail .endInValue
  | some c =>
    if !c.isDigit then failNext .invalidNumber
    else
      let ds ← upcomingDigits
      match exponentDigits 0 ds with
      | (e, none) =>
        skip ds.length
        double negative significand (if down then start - e else start + e)
      | (_, some left) =>
        skip (ds.length - left.length)
        if significand ≠ 0 ∧ !down then fail .numberOutOfRange
        else
          skip left.length
          pure (.double (.zero negative))

/-- Reads a fraction, whose point stands next, and what follows it. -/
def fractionPart (negative : Bool) (significand : Nat) (start : Int) : Reader Number := do
  skip 1
  let ds ← digits
  if ds.isEmpty then
    match ← peek with
    | none => fail .endInValue
    | some _ => failNext .invalidNumber
  else
    let (wider, dropped) := absorb significand ds
    let e : Int := start - ((ds.length - dropped : Nat) : Int)
    match ← peek with
    | some 'e' | some 'E' => exponent negative wider e
    | _ => double negative wider e

/-- Reads the digits of the whole part: a single zero, or digits that begin with another one. -/
def wholeDigits : Reader (List Char) := do
  match ← peek with
  | none => fail .endInValue
  | some '0' =>
    skip 1
    match ← peek with
    | some c => if c.isDigit then failNext .invalidNumber else pure ['0']
    | none => pure ['0']
  | some c => if c.isDigit then digits else failNext .invalidNumber

/-- The largest magnitude of a negative whole number. -/
def greatestMagnitude : Nat := 9223372036854775808

/-- Reads a number without its sign. -/
def number (negative : Bool) : Reader Number := do
  let ds ← wholeDigits
  let (significand, dropped) := absorb 0 ds
  match ← peek with
  | some '.' => fractionPart negative significand dropped
  | some 'e' | some 'E' => exponent negative significand dropped
  | _ =>
    if dropped ≠ 0 then double negative significand dropped
    else if !negative then pure (.integer significand)
    else if significand = 0 ∨ greatestMagnitude < significand then double true significand 0
    else pure (.integer (-significand))

/-- Reads a number with its sign, if one begins here. -/
def signedNumber? : Reader (Option Number) := do
  match ← peek with
  | some '-' =>
    skip 1
    some <$> number true
  | some c => if c.isDigit then some <$> number false else pure none
  | none => pure none

/-- What a number is called in a message. -/
def Number.found : Number → Found
  | integer n => .integer n
  | double x => .double x

/-- Reads as much of the value that stands next as it takes to name it, and complains that it is
not what was expected. -/
def mismatch {α : Type} (expected : String) : Reader α := do
  match ← peek with
  | some 'n' =>
    skip 1
    literal ['u', 'l', 'l']
    complain (.wrongType .null expected)
  | some 't' =>
    skip 1
    literal ['r', 'u', 'e']
    complain (.wrongType (.bool true) expected)
  | some 'f' =>
    skip 1
    literal ['a', 'l', 's', 'e']
    complain (.wrongType (.bool false) expected)
  | some '"' =>
    skip 1
    complain (.wrongType (.text (← text)) expected)
  | some '[' => complain (.wrongType .list expected)
  | some '\x7b' => complain (.wrongType .object expected)
  | _ =>
    match ← signedNumber? with
    | some n => complain (.wrongType n.found expected)
    | none => failNext .expectedValue

end Reader

end Pinboard.Json
