/-!
# Writing JSON

JSON values as the library writes them: whole numbers, strings, and objects with their fields in a
fixed order, without blanks. In a string, quotes, backslashes and control characters are escaped and
everything else stands for itself.
-/

namespace Pinboard.Json

/-- A JSON value that can be written. -/
inductive Value where
  /-- The value `null`. -/
  | null
  /-- A truth value. -/
  | bool (b : Bool)
  /-- A whole number. -/
  | integer (n : Int)
  /-- A string. -/
  | text (s : String)
  /-- An array. -/
  | list (items : List Value)
  /-- An object. -/
  | object (members : List (String × Value))

/-- A hexadecimal digit, in lower case. -/
def hexDigit (n : Nat) : Char := Nat.digitChar n

/-- One character inside a written string. -/
def escapeChar (c : Char) : List Char :=
  if c = '"' then ['\\', '"']
  else if c = '\\' then ['\\', '\\']
  else if c = '\x08' then ['\\', 'b']
  else if c = '\x0c' then ['\\', 'f']
  else if c = '\n' then ['\\', 'n']
  else if c = '\r' then ['\\', 'r']
  else if c = '\t' then ['\\', 't']
  else if c.toNat < 0x20 then
    ['\\', 'u', '0', '0', hexDigit (c.toNat / 16), hexDigit (c.toNat % 16)]
  else [c]

/-- A written string with its quotes. -/
def textChars (s : String) : List Char := '"' :: s.toList.flatMap escapeChar ++ ['"']

/-- The digits of a whole number, after a minus sign if it is negative. -/
def integerChars (n : Int) : List Char :=
  if n < 0 then '-' :: Nat.toDigits 10 n.natAbs else Nat.toDigits 10 n.natAbs

mutual

/-- The characters of a written value. -/
def Value.chars : Value → List Char
  | .null => ['n', 'u', 'l', 'l']
  | .bool true => ['t', 'r', 'u', 'e']
  | .bool false => ['f', 'a', 'l', 's', 'e']
  | .integer n => integerChars n
  | .text s => textChars s
  | .list items => '[' :: listChars items ++ [']']
  | .object members => '\x7b' :: objectChars members ++ ['\x7d']

/-- The elements of a written array, with commas between them. -/
def listChars : List Value → List Char
  | [] => []
  | [item] => item.chars
  | item :: items => item.chars ++ ',' :: listChars items

/-- The members of a written object, with commas between them. -/
def objectChars : List (String × Value) → List Char
  | [] => []
  | [(key, item)] => textChars key ++ ':' :: item.chars
  | (key, item) :: members => textChars key ++ ':' :: item.chars ++ ',' :: objectChars members

end

/-- The text of a value. -/
def Value.render (v : Value) : String := String.ofList v.chars

end Pinboard.Json
