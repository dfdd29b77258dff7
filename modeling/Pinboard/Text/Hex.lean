/-!
# Hexadecimal digits

Escapes give characters and bytes by their numbers, written in base sixteen.
-/

namespace Pinboard.Text

/-- The value of a hexadecimal digit. -/
def hexValue? (c : Char) : Option Nat :=
  if '0' ≤ c ∧ c ≤ '9' then some (c.toNat - 48)
  else if 'a' ≤ c ∧ c ≤ 'f' then some (c.toNat - 87)
  else if 'A' ≤ c ∧ c ≤ 'F' then some (c.toNat - 55)
  else none

/-- The byte that two hexadecimal digits stand for. -/
def hexByte? (a b : Char) : Option Nat := do
  pure ((← hexValue? a) * 16 + (← hexValue? b))

end Pinboard.Text
