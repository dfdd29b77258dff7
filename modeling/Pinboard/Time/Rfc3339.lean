import Pinboard.Text.Blank
import Pinboard.Text.Utf8
import Pinboard.Time.Instant

/-!
# Instants as RFC 3339 text

Writing uses one form: universal time with `Z`, and no fraction or the fewest of 3, 6 and 9 digits
that is exact. Reading is lenient: any number of digits below the usual width, blanks between the
parts, `T`, `t` or a space between date and time, and `Z`, `UTC` or an offset at the end.
-/

namespace Pinboard.Time

/-! ## Writing -/

/-- The digits of a number, with zeros in front up to a width. -/
def padded (width n : Nat) : List Char :=
  let ds := Nat.toDigits 10 n
  List.replicate (width - ds.length) '0' ++ ds

/-- A year of up to four digits is written with four, any other with a sign and at least four. -/
def yearText (year : Int) : List Char :=
  if 0 ≤ year ∧ year ≤ 9999 then padded 4 year.toNat
  else (if year < 0 then '-' else '+') :: padded 4 year.natAbs

/-- The fraction of a second: nothing, or a point and 3, 6 or 9 digits. -/
def fractionText (nano : Nat) : List Char :=
  if nano = 0 then []
  else if nano % 1000000 = 0 then '.' :: padded 3 (nano / 1000000)
  else if nano % 1000 = 0 then '.' :: padded 6 (nano / 1000)
  else '.' :: padded 9 nano

/-- The text of an instant. A moment in a leap second is written with the number of the second after
it, which is 60 at the end of a minute. -/
def Instant.text (t : Instant) : List Char :=
  let date := Date.ofDay (t.second / 86400)
  let ofDay := (t.second % 86400).toNat
  let leap := t.nano / 1000000000
  yearText date.year ++ '-' :: padded 2 date.month ++ '-' :: padded 2 date.day ++
    'T' :: padded 2 (ofDay / 3600) ++ ':' :: padded 2 (ofDay / 60 % 60) ++
    ':' :: padded 2 (ofDay % 60 + leap) ++ fractionText (t.nano % 1000000000) ++ ['Z']

/-- The text of an instant. -/
def Instant.render (t : Instant) : String := String.ofList t.text

/-! ## Reading -/

/-- Why a text is not an instant. -/
inductive ReadError where
  /-- The text ends too early. -/
  | tooShort
  /-- A character stands where another one was due. -/
  | invalid
  /-- A part has a value that no instant has. -/
  | outOfRange
  /-- The offset leads out of the range of years. -/
  | impossible
  /-- Characters are left after the offset. -/
  | tooLong
  deriving DecidableEq, Repr

/-- The wording of a reading error. -/
def ReadError.message : ReadError → String
  | tooShort => "premature end of input"
  | invalid => "input contains invalid characters"
  | outOfRange => "input is out of range"
  | impossible => "no possible date and time matching input"
  | tooLong => "trailing input"

/-- Reading takes its part off the front of the text that is left. -/
abbrev Scan := StateT (List Char) (Except ReadError)

namespace Scan

/-- Gives up. -/
def fail {α : Type} (e : ReadError) : Scan α := fun _ => .error e

/-- Skips blanks. -/
def blanks : Scan Unit := fun cs => .ok ((), Text.skipBlank cs)

/-- Signed 64-bit numbers end here. -/
def greatestNumber : Nat := 9223372036854775807

/-- The digits at the head of a text, at most `width` of them if a width is given. -/
def leadingDigits (width : Option Nat) (cs : List Char) : List Char :=
  let ds := cs.takeWhile Char.isDigit
  match width with
  | none => ds
  | some w => ds.take w

/-- Reads a number of at least one digit and at most `width`. -/
def number (width : Option Nat) : Scan Nat := fun cs =>
  let ds := leadingDigits width cs
  let n := Nat.ofDigitChars 10 ds 0
  if cs.isEmpty then .error .tooShort
  else if ds.isEmpty then .error .invalid
  else if n > greatestNumber then .error .outOfRange
  else .ok (n, cs.drop ds.length)

/-- Reads a number that has to lie between two bounds, after blanks. -/
def field (low high : Nat) : Scan Nat := do
  blanks
  let n ← number (some 2)
  if low ≤ n ∧ n ≤ high then pure n else fail .outOfRange

/-- Reads one character that satisfies a test. -/
def mark (test : Char → Bool) : Scan Unit := fun cs =>
  match cs with
  | [] => .error .tooShort
  | c :: rest => if test c then .ok ((), rest) else .error .invalid

/-- Reads a separator after blanks. -/
def separator (c : Char) : Scan Unit := do
  blanks
  mark (· == c)

/-- Years outside these bounds are no numbers of 32 bits. -/
def yearInBounds (year : Int) : Bool := -2147483648 ≤ year && year ≤ 2147483647

/-- Reads a year: after a sign any number of digits, otherwise at most four. -/
def year : Scan Int := do
  blanks
  let y ← fun cs => (match cs with
    | '-' :: rest => (do let n ← number none; pure (-(n : Int)) : Scan Int) rest
    | '+' :: rest => (do let n ← number none; pure (n : Int) : Scan Int) rest
    | _ => (do let n ← number (some 4); pure (n : Int) : Scan Int) cs)
  if yearInBounds y then pure y else fail .outOfRange

/-- Reads a fraction of a second if a point follows: up to nine digits count, more are skipped. -/
def fraction : Scan Nat := fun cs =>
  match cs with
  | '.' :: rest =>
    match number (some 9) rest with
    | .error e => .error e
    | .ok (n, left) =>
      .ok (n * Nat.pow 10 (9 - (rest.length - left.length)), left.dropWhile Char.isDigit)
  | _ => .ok (0, cs)

/-- Reads exactly two digits. -/
def twoDigits : Scan Nat := fun cs =>
  if Text.utf8Length cs < 2 then .error .tooShort
  else match cs with
    | a :: b :: rest =>
      if a.isDigit && b.isDigit then .ok (Nat.ofDigitChars 10 [a, b] 0, rest) else .error .invalid
    | _ => .error .invalid

/-- Skips colons and blanks. -/
def colonsAndBlanks : Scan Unit := fun cs =>
  .ok ((), cs.dropWhile fun c => c == ':' || Text.isBlank c)

/-- Reads the hours and minutes of an offset, in seconds. -/
def offsetAmount : Scan Nat := do
  let hours ← twoDigits
  colonsAndBlanks
  let minutes ← twoDigits
  if minutes < 60 then pure (hours * 3600 + minutes * 60) else fail .outOfRange

/-- Reads the offset from universal time, in seconds. -/
def offset : Scan Int := do
  blanks
  fun cs =>
    if (cs.take 3).map Char.toLower = ['u', 't', 'c'] then .ok (0, cs.drop 3)
    else match cs with
      | [] => .error .tooShort
      | c :: rest =>
        if c = 'Z' ∨ c = 'z' then .ok (0, rest)
        else if c = '+' then (do let n ← offsetAmount; pure (n : Int) : Scan Int) rest
        else if c = '-' ∨ c = '\u2212' then
          (do let n ← offsetAmount; pure (-(n : Int)) : Scan Int) rest
        else .error .invalid

/-- The parts of an instant as they are written. -/
structure Parts where
  /-- The date. -/
  date : Date
  /-- Hours, 0 to 23. -/
  hour : Nat
  /-- Minutes, 0 to 59. -/
  minute : Nat
  /-- Seconds, 0 to 60; the last is a leap second. -/
  second : Nat
  /-- Nanoseconds. -/
  nano : Nat
  /-- Seconds that local time is ahead of universal time. -/
  offset : Int
  deriving DecidableEq, Repr

/-- Reads the parts one after another. -/
def parts : Scan Parts := do
  let year ← year
  separator '-'
  let month ← field 1 12
  separator '-'
  let day ← field 1 31
  mark fun c => c == 'T' || c == 't' || c == ' '
  let hour ← field 0 23
  separator ':'
  let minute ← field 0 59
  separator ':'
  let second ← field 0 60
  let nano ← fraction
  let offset ← offset
  blanks
  pure ⟨⟨year, month, day⟩, hour, minute, second, nano, offset⟩

end Scan

/-- The years that instants have. -/
def yearInRange (year : Int) : Bool := -262143 ≤ year && year ≤ 262142

/-- The instant that written parts stand for. -/
def Instant.ofParts? (p : Scan.Parts) : Except ReadError Instant :=
  if !(yearInRange p.date.year && p.date.isValid) then .error .outOfRange
  else if p.offset.natAbs ≥ 86400 then .error .outOfRange
  else
    let ofDay : Nat := p.hour * 3600 + p.minute * 60 + min p.second 59
    let leap := if p.second = 60 then 1000000000 else 0
    match Instant.make? (p.date.toDay * 86400 + ofDay - p.offset) (p.nano + leap) with
    | some t => .ok t
    | none => .error .impossible

/-- Reads an instant from a whole text. -/
def Instant.ofText? (cs : List Char) : Except ReadError Instant :=
  match Scan.parts cs with
  | .error e => .error e
  | .ok (p, []) => Instant.ofParts? p
  | .ok (_, _ :: _) => .error .tooLong

end Pinboard.Time
