/-!
# Double-precision numbers, exactly

A finite double is a sign and a significand times a power of two. Every operation here is carried
out on exact ratios of natural numbers and rounded once, to the nearest double with ties to the
even significand, so no step depends on the machine's arithmetic.
-/

namespace Pinboard.Decimal

/-- A finite double: `significand * 2 ^ exponent`, negated when `negative`.

Values built by `Double.ofRatio?` are in canonical form: the significand is below `2 ^ 53`, the
exponent at least `-1074`, and the significand at least `2 ^ 52` unless the exponent is the
least. -/
structure Double where
  /-- The sign; a zero has one too. -/
  negative : Bool
  /-- The digits of the magnitude in base two. -/
  significand : Nat
  /-- The power of two that scales the significand. -/
  exponent : Int
  deriving DecidableEq, Repr

namespace Double

/-- The exponent of the smallest doubles. -/
def leastExponent : Int := -1074

/-- The exponent of the largest doubles. -/
def greatestExponent : Int := 971

/-- The quotient rounded to the nearest natural number, a half going to the even neighbour. -/
def roundDiv (num den : Nat) : Nat :=
  let quotient := num / den
  let rest := num % den
  if 2 * rest < den then quotient
  else if 2 * rest = den ∧ quotient % 2 = 0 then quotient
  else quotient + 1

/-- The ratio `num / den` divided by `2 ^ q`, again as a ratio. -/
def scaleDown (num den : Nat) (q : Int) : Nat × Nat :=
  if 0 ≤ q then (num, den * Nat.pow 2 q.toNat) else (num * Nat.pow 2 (-q).toNat, den)

/-- The double nearest to `num / den`; `none` when that lies beyond the largest double. -/
def ofRatio? (negative : Bool) (num den : Nat) : Option Double :=
  if num = 0 then
    some ⟨negative, 0, leastExponent⟩
  else
    let guess : Int := (num.log2 : Int) - (den.log2 : Int) - 53
    let wide := scaleDown num den guess
    let q := max (if wide.1 / wide.2 < Nat.pow 2 53 then guess else guess + 1) leastExponent
    let scaled := scaleDown num den q
    let m := roundDiv scaled.1 scaled.2
    let rounded : Nat × Int := if m = Nat.pow 2 53 then (Nat.pow 2 52, q + 1) else (m, q)
    if rounded.2 > greatestExponent then none else some ⟨negative, rounded.1, rounded.2⟩

/-- The magnitude as a ratio. -/
def ratio (x : Double) : Nat × Nat :=
  if 0 ≤ x.exponent then (x.significand * Nat.pow 2 x.exponent.toNat, 1)
  else (x.significand, Nat.pow 2 (-x.exponent).toNat)

/-- The zero with a given sign. -/
def zero (negative : Bool) : Double := ⟨negative, 0, leastExponent⟩

/-- The infinity with a given sign. It stands one power of two beyond the largest double, so it
compares as it should with every other double and with whole numbers. -/
def infinity (negative : Bool) : Double := ⟨negative, Nat.pow 2 52, greatestExponent + 1⟩

/-- Is this one of the two infinities? -/
def isInfinite (x : Double) : Bool := x.exponent > greatestExponent

/-- Is this one of the two zeros? -/
def isZero (x : Double) : Bool := x.significand == 0

/-- The product, rounded; `none` when it overflows. -/
def mul? (x y : Double) : Option Double :=
  ofRatio? (x.negative != y.negative) (x.ratio.1 * y.ratio.1) (x.ratio.2 * y.ratio.2)

/-- The quotient by a number that is not zero, rounded; `none` when it overflows. -/
def div? (x y : Double) : Option Double :=
  ofRatio? (x.negative != y.negative) (x.ratio.1 * y.ratio.2) (x.ratio.2 * y.ratio.1)

/-- The double nearest to `m * 10 ^ e`, and `none` beyond the largest. -/
def ofDecimal? (negative : Bool) (m : Nat) (e : Int) : Option Double :=
  if 0 ≤ e then ofRatio? negative (m * Nat.pow 10 e.toNat) 1
  else ofRatio? negative m (Nat.pow 10 (-e).toNat)

/-- The signed numerator over the positive denominator of the exact value. -/
def signedRatio (x : Double) : Int × Nat :=
  (if x.negative then -(x.ratio.1 : Int) else x.ratio.1, x.ratio.2)

/-- The whole number that a double is, if it is one. -/
def toInt? (x : Double) : Option Int :=
  if x.signedRatio.1 % (x.signedRatio.2 : Int) = 0 then
    some (x.signedRatio.1 / (x.signedRatio.2 : Int))
  else none

/-- Exact comparison of two doubles; the two zeros are equal. -/
def compare (x y : Double) : Ordering :=
  Ord.compare (x.signedRatio.1 * y.signedRatio.2) (y.signedRatio.1 * x.signedRatio.2)

/-- Exact comparison of a double with a whole number. -/
def compareInt (x : Double) (n : Int) : Ordering :=
  Ord.compare x.signedRatio.1 (n * x.signedRatio.2)

end Double

end Pinboard.Decimal
