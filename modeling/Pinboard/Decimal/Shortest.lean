import Pinboard.Decimal.Double

/-!
# The shortest decimal of a double

Among the decimals that round to a given double, the one with the fewest digits, and of those the
nearest; of two equally near ones, the even or the greater one. On the grid of decimals with `n`
digits only the two neighbours of the exact value need to be tried: if any point of the grid rounds
to the double, one of these does.
-/

namespace Pinboard.Decimal

/-- The decimal `digits * 10 ^ exponent`. -/
structure Scientific where
  /-- The digits, read as one natural number. -/
  digits : Nat
  /-- The power of ten that scales them. -/
  exponent : Int
  deriving DecidableEq, Repr

namespace Double

/-- The exact value less half the gap below, the value, and the value plus half the gap above, as
numerators over the common denominator that comes last. The reals between the outer two round to
the double. -/
def interval (x : Double) : Nat × Nat × Nat × Nat :=
  let wide := x.ratio
  let unit := Double.ratio ⟨false, 1, x.exponent⟩
  let gapBelow := if x.significand = Nat.pow 2 52 ∧ x.exponent > leastExponent then 1 else 2
  (4 * wide.1 - gapBelow * unit.1, 4 * wide.1, 4 * wide.1 + 2 * unit.1, 4 * wide.2)

/-- The largest `e` with `10 ^ e ≤ num / den`, for a ratio that is not zero. -/
def leadingExponent (num den : Nat) : Int :=
  if den ≤ num then ((Nat.toDigits 10 (num / den)).length : Int) - 1
  else
    let shift := (Nat.toDigits 10 (den / num)).length
    if den ≤ num * Nat.pow 10 (shift - 1) then 1 - (shift : Int) else -(shift : Int)

/-- The decimal nearest to the double on the grid of step `10 ^ e`, if it rounds to the double. Of
two equally near ones it is the greater where `up`, and else the even one. -/
def onGrid? (up : Bool) (x : Double) (e : Int) : Option Scientific :=
  let (low, mid, high, den) := x.interval
  let fine : Nat := if 0 ≤ e then 1 else Nat.pow 10 (-e).toNat
  let coarse : Nat := if 0 ≤ e then Nat.pow 10 e.toNat else 1
  let step := den * coarse
  let below := mid * fine / step
  let inside (k : Nat) : Bool :=
    if x.significand % 2 = 0 then low * fine ≤ k * step && k * step ≤ high * fine
    else low * fine < k * step && k * step < high * fine
  let belowGap := mid * fine - below * step
  let aboveGap := (below + 1) * step - mid * fine
  let nearer := if belowGap < aboveGap ∨ (belowGap = aboveGap ∧ !up ∧ below % 2 = 0) then below
    else below + 1
  let farther := if nearer = below then below + 1 else below
  if inside nearer then some ⟨nearer, e⟩
  else if inside farther then some ⟨farther, e⟩
  else none

/-- The first of `17` grids, coarsest first, that holds a decimal of the double. -/
def firstOnGrid (up : Bool) (x : Double) (top : Int) : Nat → Scientific
  | 0 => ⟨0, 0⟩
  | n + 1 =>
    match onGrid? up x (top - (17 - (n + 1) : Nat)) with
    | some d => d
    | none => firstOnGrid up x top n

/-- Moves zeros at the end of the digits into the exponent. -/
def stripZeros : Nat → Scientific → Scientific
  | 0, d => d
  | fuel + 1, d =>
    if d.digits ≠ 0 ∧ d.digits % 10 = 0 then stripZeros fuel ⟨d.digits / 10, d.exponent + 1⟩ else d

/-- The shortest decimal that reads back as the magnitude of the double. -/
def shortest (up : Bool) (x : Double) : Scientific :=
  if x.isZero then ⟨0, 0⟩
  else stripZeros 20 (firstOnGrid up x (leadingExponent x.ratio.1 x.ratio.2) 17)

end Double

/-- How a double is written: where positional notation ends, whether a positive exponent has a plus
sign, and which way a tie goes. -/
structure DoubleFormat where
  /-- The least leading exponent that is written positionally. -/
  least : Int
  /-- The greatest leading exponent that is written positionally. -/
  greatest : Int
  /-- Write `e+7` rather than `e7`. -/
  plus : Bool
  /-- Of two shortest decimals that are equally near, take the greater rather than the even one. -/
  up : Bool

/-- The written form: digits with a point, `.0` after a whole number, or one digit before the
point and an exponent; `inf` for an infinity. -/
def Double.render (f : DoubleFormat) (x : Double) : String :=
  let d := x.shortest f.up
  let ds := Nat.toDigits 10 d.digits
  let lead : Int := d.exponent + (ds.length : Int) - 1
  let body : List Char :=
    if x.isZero then ['0', '.', '0']
    else if x.isInfinite then ['i', 'n', 'f']
    else if f.least ≤ lead ∧ lead ≤ f.greatest then
      if 0 ≤ d.exponent then ds ++ List.replicate d.exponent.toNat '0' ++ ['.', '0']
      else if 0 ≤ lead then ds.take (lead.toNat + 1) ++ '.' :: ds.drop (lead.toNat + 1)
      else '0' :: '.' :: List.replicate ((-lead).toNat - 1) '0' ++ ds
    else
      let mantissa := match ds with
        | c :: r@(_ :: _) => c :: '.' :: r
        | short => short
      let sign := if lead < 0 then ['-'] else if f.plus then ['+'] else []
      mantissa ++ 'e' :: sign ++ Nat.toDigits 10 lead.natAbs
  String.ofList (if x.negative then '-' :: body else body)

end Pinboard.Decimal
