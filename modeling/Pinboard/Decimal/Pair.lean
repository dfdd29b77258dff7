import Pinboard.Decimal.Double

/-!
# Pairs of doubles

A number held as the sum of a double and a small correction, with about twice the precision of a
double. A pair is scaled by powers of ten in steps of a hundred, ten and one; every single operation
on doubles is rounded, so that the result is the exact one up to a few units in the last place of
the correction, and is always the same.
-/

namespace Pinboard.Decimal

namespace Double

/-- The double nearest to a ratio with a sign; `none` beyond the largest. -/
def ofSigned? (num : Int) (den : Nat) : Option Double := ofRatio? (num < 0) num.natAbs den

/-- The negated double. -/
def neg (x : Double) : Double := { x with negative := !x.negative }

/-- The sum, rounded; `none` when it overflows. -/
def add? (x y : Double) : Option Double :=
  ofSigned? (x.signedRatio.1 * y.signedRatio.2 + y.signedRatio.1 * x.signedRatio.2)
    (x.signedRatio.2 * y.signedRatio.2)

/-- The difference, rounded; `none` when it overflows. -/
def sub? (x y : Double) : Option Double := x.add? y.neg

/-- The double without the last 26 digits of its significand. -/
def upperHalf (x : Double) : Double :=
  { x with significand := x.significand - x.significand % Nat.pow 2 26 }

/-- The magnitude without its fraction. -/
def truncate (x : Double) : Nat := x.ratio.1 / x.ratio.2

end Double

/-- The sum of a double and a small correction. -/
structure Pair where
  /-- The double. -/
  high : Double
  /-- The correction. -/
  low : Double
  deriving DecidableEq, Repr

namespace Pair

/-- A natural number below `2 ^ 64` as a pair. -/
def ofNat (n : Nat) : Pair :=
  let high := (Double.ofRatio? false n 1).getD (.zero false)
  let rest : Int := if high.truncate < Nat.pow 2 64 then (n : Int) - high.truncate else 0
  ⟨high, (Double.ofSigned? rest 1).getD (.zero false)⟩

/-- The product of two doubles as a pair: the parts are multiplied one by one, and what the main
product loses is gathered in the correction. `none` when a step overflows. -/
def product? (x y : Double) : Option Pair := do
  let xUpper := x.upperHalf
  let yUpper := y.upperHalf
  let xLower ← x.sub? xUpper
  let yLower ← y.sub? yUpper
  let upper ← xUpper.mul? yUpper
  let middle ← (← xUpper.mul? yLower).add? (← xLower.mul? yUpper)
  let main ← upper.add? middle
  let rest ← (← upper.sub? main).add? middle
  pure ⟨main, ← rest.add? (← xLower.mul? yLower)⟩

/-- The product of two pairs, without the product of the corrections. `none` when a step
overflows. -/
def mul? (x y : Pair) : Option Pair := do
  let main ← product? x.high y.high
  let cross ← (← x.high.mul? y.low).add? (← x.low.mul? y.high)
  let rest ← cross.add? main.low
  let high ← main.high.add? rest
  pure ⟨high, ← (← main.high.sub? high).add? rest⟩

/-- The double nearest to a decimal that is in range. -/
def near (negative : Bool) (digits : Nat) (exponent : Int) : Double :=
  (Double.ofDecimal? negative digits exponent).getD (.zero negative)

/-- `10 ^ 100`. -/
def tenTo100 : Pair := ⟨near false 1 100, near true 15902891109759918046 64⟩

/-- `10 ^ 10`. -/
def tenTo10 : Pair := ⟨near false 1 10, .zero false⟩

/-- Ten. -/
def ten : Pair := ⟨near false 1 1, .zero false⟩

/-- `10 ^ -100`. -/
def tenthTo100 : Pair := ⟨near false 1 (-100), near true 199918998026028836196 (-137)⟩

/-- `10 ^ -10`. -/
def tenthTo10 : Pair := ⟨near false 1 (-10), near true 36432197315497741579 (-46)⟩

/-- One tenth. -/
def tenth : Pair := ⟨near false 1 (-1), near true 55511151231257827021 (-37)⟩

/-- The pair times a factor, as many times as are asked for. -/
def times? (factor : Pair) : Nat → Pair → Option Pair
  | 0, x => some x
  | n + 1, x => do times? factor n (← x.mul? factor)

/-- The pair times `10 ^ n`, or times `10 ^ -n` where `down`: by the hundredth power of ten as often
as it goes, then by the tenth, then by the first. -/
def scale? (down : Bool) (x : Pair) (n : Nat) : Option Pair := do
  let x ← times? (if down then tenthTo100 else tenTo100) (n / 100) x
  let x ← times? (if down then tenthTo10 else tenTo10) (n % 100 / 10) x
  times? (if down then tenth else ten) (n % 10) x

/-- The pair rounded to a double; `none` when that overflows. -/
def toDouble? (x : Pair) : Option Double := x.high.add? x.low

/-- The pair without its fraction, for pairs that are not negative; the correction loses its own
fraction first. -/
def truncate (x : Pair) : Nat :=
  if x.low.negative then x.high.truncate - x.low.truncate else x.high.truncate + x.low.truncate

/-- Scales by a factor as long as the double asks for it, but not more often than `fuel` times, and
counts the steps. -/
def scaleWhile? (more : Double → Bool) (factor : Pair) : Nat → Pair → Option (Pair × Nat)
  | 0, x => some (x, 0)
  | fuel + 1, x =>
    if more x.high then do
      let (y, steps) ← scaleWhile? more factor fuel (← x.mul? factor)
      pure (y, steps + 1)
    else some (x, 0)

/-- Scales by the hundredth, the tenth and the first power of ten, each as long as the double asks
for it, and tells the power of ten altogether. Of the first no double needs more than four steps, of
the others none needs more than ten. -/
def normalise? (hundreds tens ones : Double → Bool) (byHundred byTen byOne : Pair) (x : Pair) :
    Option (Pair × Nat) := do
  let (x, h) ← scaleWhile? hundreds byHundred 4 x
  let (x, t) ← scaleWhile? tens byTen 10 x
  let (x, o) ← scaleWhile? ones byOne 10 x
  pure (x, 100 * h + 10 * t + o)

/-- Is the first double the greater one? -/
def exceeds (bound x : Double) : Bool := x.compare bound == .gt

/-- Is the first double the smaller one? -/
def fallsShort (bound x : Double) : Bool := x.compare bound == .lt

/-- A magnitude that is not zero as a number of eighteen or nineteen digits times a power of ten. -/
def digits (x : Double) : Nat × Int :=
  let start : Pair := ⟨{ x with negative := false }, .zero false⟩
  let top := 9223372036854774784
  if exceeds (near false top 0) start.high then
    match normalise? (exceeds (near false top 100)) (exceeds (near false top 10))
        (exceeds (near false top 0)) tenthTo100 tenthTo10 tenth start with
    | some (y, power) => (y.truncate, power)
    | none => (0, 0)
  else
    match normalise? (fallsShort (near false top (-101))) (fallsShort (near false top (-11)))
        (fallsShort (near false 922337203685477478 0)) tenTo100 tenTo10 ten start with
    | some (y, power) => (y.truncate, -(power : Int))
    | none => (0, 0)

end Pair

end Pinboard.Decimal
