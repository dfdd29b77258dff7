/-!
# Blank text

Which characters count as white space, and the text that is left when they are taken off both ends.
A name made only of blank characters names nothing, so the store refuses it.
-/

namespace Pinboard.Text

/-- The characters that have the Unicode property `White_Space`. -/
def isBlank (c : Char) : Bool :=
  let n := c.toNat
  (9 ≤ n && n ≤ 13) || n == 0x20 || n == 0x85 || n == 0xA0 || n == 0x1680 ||
    (0x2000 ≤ n && n ≤ 0x200A) || n == 0x2028 || n == 0x2029 || n == 0x202F || n == 0x205F ||
    n == 0x3000

/-- The characters from the first one that is not blank. -/
def skipBlank (cs : List Char) : List Char := cs.dropWhile isBlank

/-- The text without the blank characters at its two ends. -/
def trim (s : String) : String :=
  String.ofList (skipBlank (skipBlank s.toList).reverse).reverse

/-- A text is blank when it has no character that is not. -/
def allBlank (s : String) : Bool := s.toList.all isBlank

end Pinboard.Text
