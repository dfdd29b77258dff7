import Pinboard.Decimal.Pair
import Pinboard.Store.Cell

/-!
# Affinities of columns

A column prefers numbers or texts and turns what is written to it into its preference, where no
information is lost: a text that is a numeral becomes a number, a double that is whole becomes a
whole number, and in a column of texts a number becomes its numeral.
-/

namespace Pinboard.Store

open Decimal

/-! ## Numerals -/

/-- Blanks around a numeral. -/
def isNumeralBlank (c : Char) : Bool := c == ' ' || (9 ≤ c.toNat && c.toNat ≤ 13)

/-- The numeral at the head of a text. -/
structure Numeral where
  /-- It has a minus sign. -/
  negative : Bool
  /-- The digits before the point. -/
  whole : List Char
  /-- The digits after the point, if there is one. -/
  fraction : Option (List Char)
  /-- The power of ten, if there is one. -/
  exponent : Option Int
  /-- What follows it. -/
  rest : List Char
  deriving DecidableEq, Repr

/-- Reads a sign, if there is one. -/
def takeSign : List Char → Bool × List Char
  | '-' :: cs => (true, cs)
  | '+' :: cs => (false, cs)
  | cs => (false, cs)

/-- Reads the digits at the head of a text. -/
def takeDigits (cs : List Char) : List Char × List Char := cs.span Char.isDigit

/-- From here on the digits of an exponent no longer count one by one. -/
def greatestExponent : Nat := 10000

/-- The exponent with one more digit. -/
def appendExponent (n : Nat) (digit : Char) : Nat :=
  if n < greatestExponent then n * 10 + (digit.toNat - '0'.toNat) else greatestExponent

/-- Reads an exponent; without digits it is none. -/
def takeExponent (cs : List Char) : Option Int × List Char :=
  match cs with
  | c :: more =>
    if c = 'e' ∨ c = 'E' then
      let (negative, more) := takeSign more
      match takeDigits more with
      | ([], _) => (none, cs)
      | (ds, rest) =>
        let n : Nat := ds.foldl appendExponent 0
        (some (if negative then -(n : Int) else n), rest)
    else (none, cs)
  | [] => (none, cs)

/-- Reads the numeral at the head of a text, after blanks. -/
def Numeral.read (cs : List Char) : Numeral :=
  let (negative, cs) := takeSign (cs.dropWhile isNumeralBlank)
  let (whole, cs) := takeDigits cs
  let (fraction, cs) := match cs with
    | '.' :: more =>
      let (ds, rest) := takeDigits more
      (some ds, rest)
    | _ => (none, cs)
  let (exponent, rest) := takeExponent cs
  ⟨negative, whole, fraction, exponent, rest⟩

namespace Numeral

/-- It has a digit before the exponent. -/
def hasDigits (n : Numeral) : Bool := !(n.whole ++ n.fraction.getD []).isEmpty

/-- It has neither a point nor an exponent. -/
def isWhole (n : Numeral) : Bool := n.fraction.isNone && n.exponent.isNone

/-- The whole number before the point. -/
def toInt (n : Numeral) : Int :=
  let m : Int := Nat.ofDigitChars 10 n.whole 0
  if n.negative then -m else m

/-- Digits are taken as long as the number stays below this, so that it keeps to 64 bits. -/
def digitBound : Nat := 1844674407370955160

/-- The significant digits of the whole part, and how many digits after them are left out. The first
digit that takes the number to the bound is the last one taken. -/
def takeWhole (m : Nat) : List Char → Nat × Nat
  | [] => (m, 0)
  | c :: cs =>
    let m := m * 10 + (c.toNat - '0'.toNat)
    if digitBound ≤ m then (m, cs.length) else takeWhole m cs

/-- The digits with those of the fraction that are significant, and how many these are. -/
def takeFraction (m : Nat) : List Char → Nat × Nat
  | [] => (m, 0)
  | c :: cs =>
    if m < digitBound then
      let (m, count) := takeFraction (m * 10 + (c.toNat - '0'.toNat)) cs
      (m, count + 1)
    else (m, 0)

/-- The numeral as digits that fit into 64 bits, and a power of ten. -/
def digits (n : Numeral) : Nat × Int :=
  let (m, dropped) := takeWhole 0 n.whole
  let (m, taken) := takeFraction m (n.fraction.getD [])
  (m, n.exponent.getD 0 + dropped - taken)

/-- Digits are multiplied by ten as long as they stay below this. -/
def widenBound : Nat := 1844674407370954956

/-- Moves powers of ten from a positive exponent to the digits, as far as they go. -/
def widen (m : Nat) : Nat → Nat × Nat
  | 0 => (m, 0)
  | e + 1 => if m < widenBound then widen (m * 10) e else (m, e + 1)

/-- Moves zeros at the end of the digits to a negative exponent. -/
def narrow (m : Nat) : Nat → Nat × Nat
  | 0 => (m, 0)
  | e + 1 => if m % 10 = 0 then narrow (m / 10) e else (m, e + 1)

/-- The double that a numeral stands for; an infinity where it is too large. The digits are scaled
as a pair of doubles, so that the last digit of the double can differ from that of the nearest
one. -/
def toDouble (n : Numeral) : Double :=
  let (m, e) := n.digits
  if m = 0 then .zero n.negative
  else
    let scaled :=
      if 0 ≤ e then
        let (m, e) := widen m e.toNat
        (Pair.ofNat m).scale? false e
      else
        let (m, e) := narrow m e.natAbs
        (Pair.ofNat m).scale? true e
    match scaled.bind Pair.toDouble? with
    | some x => { x with negative := n.negative }
    | none => .infinity n.negative

end Numeral

/-! ## Preferences -/

/-- The least whole number that a cell can hold. -/
def leastInteger : Int := -9223372036854775808

/-- The greatest whole number that a cell can hold. -/
def greatestInteger : Int := 9223372036854775807

/-- Can a cell hold the whole number? -/
def fitsInteger (n : Int) : Bool := leastInteger ≤ n && n ≤ greatestInteger

/-- A double as a cell in a column of whole numbers. -/
def wholeOrReal (x : Double) : Cell :=
  match x.toInt? with
  | some n => if leastInteger < n ∧ n < greatestInteger then .integer n else .real x
  | none => .real x

/-- The cell as a column of whole numbers takes it. -/
def Cell.asInteger : Cell → Cell
  | .text s =>
    let n := Numeral.read s.toList
    if n.hasDigits && n.rest.all isNumeralBlank then
      if n.isWhole && fitsInteger n.toInt then .integer n.toInt
      else wholeOrReal n.toDouble
    else .text s
  | .real x => wholeOrReal x
  | c => c

/-- A magnitude that is not zero with fifteen digits: the digits, a half rounded up, and the
exponent of the first one. -/
def fifteenDigits (x : Double) : Nat × Int :=
  let (m, e) := Pair.digits x
  let length := (Nat.toDigits 10 m).length
  let lead := e + length - 1
  let unit := Nat.pow 10 (length - 15)
  let kept := (2 * m + unit) / (2 * unit)
  if kept = Nat.pow 10 15 then (Nat.pow 10 14, lead + 1) else (kept, lead)

/-- The text of a double with up to fifteen digits, always with a point. -/
def realText (x : Double) : String :=
  let body : List Char :=
    if x.isZero then ['0', '.', '0']
    else
      let (scaled, lead) := fifteenDigits x
      let ds := (Nat.toDigits 10 scaled).reverse.dropWhile (· == '0') |>.reverse
      let afterPoint (tail : List Char) := if tail.isEmpty then ['0'] else tail
      if lead < -4 ∨ 14 < lead then
        let e := Nat.toDigits 10 lead.natAbs
        ds.take 1 ++ '.' :: afterPoint (ds.drop 1) ++ 'e' :: (if lead < 0 then '-' else '+') ::
          List.replicate (2 - e.length) '0' ++ e
      else if lead < 0 then
        '0' :: '.' :: List.replicate (lead.natAbs - 1) '0' ++ ds
      else
        let width := lead.toNat + 1
        ds.take width ++ List.replicate (width - ds.length) '0' ++
          '.' :: afterPoint (ds.drop width)
  String.ofList (if x.negative && !x.isZero then '-' :: body else body)

/-- The cell as a column of texts takes it. -/
def Cell.asText : Cell → Cell
  | .integer n => .text (toString n)
  | .real x => .text (realText x)
  | c => c

/-! ## Arithmetic -/

/-- What a text counts for in arithmetic: the numeral at its head, and zero if there is none. The
answer is a whole number, or none where it is a double. -/
def headInteger? (cs : List Char) : Option Int :=
  let n := Numeral.read cs
  if n.hasDigits && !n.isWhole then none
  else if fitsInteger n.toInt then some n.toInt else none

/-- The whole number that a cell counts for in arithmetic; none where it is a double. -/
def Cell.toInteger? : Cell → Option Int
  | .integer n => some n
  | .real _ => none
  | .text s => headInteger? s.toList
  | .blob bytes => headInteger? (bytes.map fun b => Char.ofNat b.toNat)

end Pinboard.Store
