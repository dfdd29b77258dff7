import Pinboard.Json.Reader

/-!
# The grammar of JSON texts

Which texts are JSON values, said without a reader: white space, string literals and what they stand
for, numbers, arrays and objects. What lies between two brackets is a list of pieces, with commas
between them and white space around each (`Listed`), so that a value may nest to any depth.
-/

namespace Pinboard.Json

/-- White space. -/
def Gap (cs : List Char) : Prop := ∀ c ∈ cs, c = ' ' ∨ c = '\n' ∨ c = '\t' ∨ c = '\r'

instance (cs : List Char) : Decidable (Gap cs) :=
  List.decidableBAll (fun c => c = ' ' ∨ c = '\n' ∨ c = '\t' ∨ c = '\r') cs

/-! ## Strings -/

/-- What one letter after a backslash stands for. -/
def escapes : List (Char × Char) :=
  [('"', '"'), ('\\', '\\'), ('/', '/'), ('b', '\x08'), ('f', '\x0c'), ('n', '\n'), ('r', '\r'),
    ('t', '\t')]

/-- Four hexadecimal digits, in either case, and their number. -/
inductive HexText : List Char → Nat → Prop where
  /-- The first digit counts most. -/
  | mk {a b c d : Char} {w x y z : Nat} (ha : Text.hexValue? a = some w)
      (hb : Text.hexValue? b = some x) (hc : Text.hexValue? c = some y)
      (hd : Text.hexValue? d = some z) :
      HexText [a, b, c, d] (((w * 16 + x) * 16 + y) * 16 + z)

/-- A character that stands for itself in a string. -/
def Plain (c : Char) : Prop := c ≠ '"' ∧ c ≠ '\\' ∧ 0x20 ≤ c.toNat

/-- What may stand between the quotes of a string. -/
inductive StringBody : List Char → Prop where
  /-- Nothing. -/
  | nil : StringBody []
  /-- A character that stands for itself. -/
  | plain {c : Char} {cs : List Char} (hc : Plain c) (rest : StringBody cs) : StringBody (c :: cs)
  /-- A backslash and a letter. -/
  | short {c x : Char} {cs : List Char} (hc : (c, x) ∈ escapes) (rest : StringBody cs) :
      StringBody ('\\' :: c :: cs)
  /-- A backslash and the number of a character. -/
  | unit {four cs : List Char} {n : Nat} (hn : HexText four n) (rest : StringBody cs) :
      StringBody ('\\' :: 'u' :: (four ++ cs))

/-- What stands between the quotes, and the characters it stands for. A character beyond the first
65536 can be given by the two halves of a surrogate pair; one half alone stands for nothing. -/
inductive Spells : List Char → List Char → Prop where
  /-- Nothing. -/
  | nil : Spells [] []
  /-- A character that stands for itself. -/
  | plain {c : Char} {cs text : List Char} (hc : Plain c) (rest : Spells cs text) :
      Spells (c :: cs) (c :: text)
  /-- A backslash and a letter. -/
  | short {c x : Char} {cs text : List Char} (hc : (c, x) ∈ escapes) (rest : Spells cs text) :
      Spells ('\\' :: c :: cs) (x :: text)
  /-- The number of a character, which is no half of a pair. -/
  | unit {four cs text : List Char} {n : Nat} (hn : HexText four n)
      (hrange : n < 0xD800 ∨ 0xDFFF < n) (rest : Spells cs text) :
      Spells ('\\' :: 'u' :: (four ++ cs)) (Char.ofNat n :: text)
  /-- The two halves of a pair, the high one first. -/
  | pair {four four' cs text : List Char} {high low : Nat} (hhigh : HexText four high)
      (hlow : HexText four' low) (hrange : 0xD800 ≤ high ∧ high ≤ 0xDBFF)
      (hrange' : 0xDC00 ≤ low ∧ low ≤ 0xDFFF) (rest : Spells cs text) :
      Spells ('\\' :: 'u' :: (four ++ '\\' :: 'u' :: (four' ++ cs)))
        (Char.ofNat (0x10000 + (high - 0xD800) * 0x400 + (low - 0xDC00)) :: text)

/-- A string literal. -/
def StringText (cs : List Char) : Prop := ∃ body, StringBody body ∧ cs = '"' :: (body ++ ['"'])

/-- A string literal that stands for a given text. -/
def StringOf (cs : List Char) (s : String) : Prop :=
  ∃ body, Spells body s.toList ∧ cs = '"' :: (body ++ ['"'])

/-! ## Numbers -/

/-- At least one digit. -/
def DigitsText (cs : List Char) : Prop := cs ≠ [] ∧ ∀ c ∈ cs, c.isDigit = true

/-- The whole part of a number has no needless zero in front. -/
def WholeText (cs : List Char) : Prop := DigitsText cs ∧ (cs.head? = some '0' → cs = ['0'])

/-- A fraction, or nothing. -/
inductive FractionText : List Char → Prop where
  /-- There is none. -/
  | none : FractionText []
  /-- A point and digits. -/
  | some {ds : List Char} (hds : DigitsText ds) : FractionText ('.' :: ds)

/-- An exponent, or nothing. -/
inductive ExponentText : List Char → Prop where
  /-- There is none. -/
  | none : ExponentText []
  /-- A letter, a sign or none, and digits. -/
  | some {e : Char} {sign ds : List Char} (he : e = 'e' ∨ e = 'E')
      (hsign : sign = [] ∨ sign = ['+'] ∨ sign = ['-']) (hds : DigitsText ds) :
      ExponentText (e :: (sign ++ ds))

/-- A number. -/
inductive NumberText : List Char → Prop where
  /-- A sign or none, and the three parts. -/
  | mk {sign whole fraction exponent : List Char} (hsign : sign = [] ∨ sign = ['-'])
      (hwhole : WholeText whole) (hfraction : FractionText fraction)
      (hexponent : ExponentText exponent) :
      NumberText (sign ++ (whole ++ (fraction ++ exponent)))

/-! ## Values -/

/-- What comes before a piece: white space, after a comma if the piece is not the first. -/
inductive Lead : Bool → List Char → Prop where
  /-- The first piece has only white space before it. -/
  | first {gap : List Char} (hgap : Gap gap) : Lead true gap
  /-- Any other one has a comma before it. -/
  | next {gap gap' : List Char} (hgap : Gap gap) (hgap' : Gap gap') :
      Lead false (gap ++ ',' :: gap')

/-- Pieces one after another, and the text of them all; the flag tells whether the first of them
comes without a comma. -/
inductive Listed {α : Type} (Piece : α → List Char → Prop) : Bool → List α → List Char → Prop where
  /-- No piece is left. -/
  | nil {first : Bool} {gap : List Char} (hgap : Gap gap) : Listed Piece first [] gap
  /-- A piece, and the pieces behind it. -/
  | cons {first : Bool} {lead cs rest : List Char} {a : α} {as : List α} (hlead : Lead first lead)
      (hpiece : Piece a cs) (htail : Listed Piece false as rest) :
      Listed Piece first (a :: as) (lead ++ (cs ++ rest))

/-- A member of an object: its key, a colon and its value. -/
inductive MemberText : List Char × List Char → List Char → Prop where
  /-- There may be white space on either side of the colon. -/
  | mk {key value gap gap' : List Char} (hgap : Gap gap) (hgap' : Gap gap') :
      MemberText (key, value) (key ++ (gap ++ ':' :: (gap' ++ value)))

/-- A JSON value, without white space around it. -/
inductive JsonText : List Char → Prop where
  /-- The word for a missing value. -/
  | null : JsonText ['n', 'u', 'l', 'l']
  /-- The word for what is so. -/
  | true : JsonText ['t', 'r', 'u', 'e']
  /-- The word for what is not. -/
  | false : JsonText ['f', 'a', 'l', 's', 'e']
  /-- A number. -/
  | number {cs : List Char} (h : NumberText cs) : JsonText cs
  /-- A string literal. -/
  | string {cs : List Char} (h : StringText cs) : JsonText cs
  /-- Values in square brackets. -/
  | list {items : List (List Char)} {cs : List Char} (hlist : Listed Eq true items cs)
      (hitems : ∀ v ∈ items, JsonText v) : JsonText ('[' :: (cs ++ [']']))
  /-- Members in curly brackets. -/
  | object {members : List (List Char × List Char)} {cs : List Char}
      (hmembers : Listed MemberText true members cs) (hkeys : ∀ m ∈ members, StringText m.1)
      (hvalues : ∀ m ∈ members, JsonText m.2) : JsonText ('\x7b' :: (cs ++ ['\x7d']))

/-- A member with a given name and value. -/
def NamedMember (m : String × List Char) (cs : List Char) : Prop :=
  ∃ key, StringOf key m.1 ∧ MemberText (key, m.2) cs

/-- An object whose members have, one after another, these names and these values. -/
def ObjectText (members : List (String × List Char)) (cs : List Char) : Prop :=
  ∃ inner, Listed NamedMember true members inner ∧ cs = '\x7b' :: (inner ++ ['\x7d'])

end Pinboard.Json
