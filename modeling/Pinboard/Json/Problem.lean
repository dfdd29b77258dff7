import Pinboard.Decimal.Shortest
import Pinboard.Text.Quoted
import Pinboard.Time.Rfc3339

/-!
# What can be wrong with a JSON text

Every cause for which a text is refused, with its wording, and the place that a message points to:
a line counted from 1 and the bytes read on it.
-/

namespace Pinboard.Json

/-- A place in a text. -/
structure Position where
  /-- The line, counted from 1. -/
  line : Nat
  /-- The bytes of the line before the place. -/
  column : Nat
  deriving DecidableEq, Repr

/-- What stands where something else was expected. -/
inductive Found where
  /-- The value `null`. -/
  | null
  /-- A truth value. -/
  | bool (b : Bool)
  /-- A whole number. -/
  | integer (n : Int)
  /-- Any other number. -/
  | double (x : Decimal.Double)
  /-- A string. -/
  | text (s : String)
  /-- An array. -/
  | list
  /-- An object. -/
  | object
  /-- The bare name of a choice that has to come with a value. -/
  | bareVariant
  deriving DecidableEq

/-- Numbers in messages: positional from `10 ^ -5` up to `10 ^ 16`, otherwise with an exponent that
shows its sign. A tie goes to the even digit. -/
def messageFormat : Decimal.DoubleFormat := ⟨-5, 15, true, false⟩

/-- The wording of what was found. -/
def Found.describe : Found → String
  | null => "null"
  | bool b => s!"boolean `{b}`"
  | integer n => s!"integer `{n}`"
  | double x =>
    let shown := x.render messageFormat
    s!"floating point `{shown}`"
  | text s =>
    let shown := Text.quote s
    s!"string {shown}"
  | list => "sequence"
  | object => "map"
  | bareVariant => "unit variant"

/-- Why a JSON text, or the value in it, is refused. -/
inductive Problem where
  /-- The text ends inside an array. -/
  | endInList
  /-- The text ends inside an object. -/
  | endInObject
  /-- The text ends inside a string. -/
  | endInText
  /-- The text ends where a value was due. -/
  | endInValue
  /-- No colon after a key. -/
  | expectedColon
  /-- Neither a comma nor the end after an element of an array. -/
  | expectedListEnd
  /-- Neither a comma nor the end after a member of an object. -/
  | expectedObjectEnd
  /-- A misspelt `null`, `true` or `false`. -/
  | expectedIdent
  /-- No value begins here. -/
  | expectedValue
  /-- An unknown escape. -/
  | invalidEscape
  /-- A malformed number. -/
  | invalidNumber
  /-- A number beyond the largest double. -/
  | numberOutOfRange
  /-- A control character inside a string. -/
  | controlCharacter
  /-- A key that is no string. -/
  | keyMustBeText
  /-- Half of a surrogate pair. -/
  | loneSurrogate
  /-- A leading surrogate without an escape after it. -/
  | endOfHexEscape
  /-- A comma with nothing after it. -/
  | trailingComma
  /-- Something after the end. -/
  | trailingCharacters
  /-- A value of another type. -/
  | wrongType (found : Found) (expected : String)
  /-- A value of the right type that is not allowed. -/
  | wrongValue (found : Found) (expected : String)
  /-- A record given as an array of too few elements. -/
  | wrongLength (length : Nat) (expected : String)
  /-- A name that is none of the choices. -/
  | unknownVariant (name : String) (choices : List String)
  /-- A field that has no default is not given. -/
  | missingField (name : String)
  /-- A field is given twice. -/
  | duplicateField (name : String)
  /-- A text that is no instant. -/
  | badInstant (e : Time.ReadError)
  deriving DecidableEq

/-- Two choices are joined by `or`, more are listed. -/
def choiceText : List String → String
  | [a, b] => s!"expected `{a}` or `{b}`"
  | names => "expected one of " ++ ", ".intercalate (names.map fun n => s!"`{n}`")

/-- The wording of a problem. -/
def Problem.message : Problem → String
  | endInList => "EOF while parsing a list"
  | endInObject => "EOF while parsing an object"
  | endInText => "EOF while parsing a string"
  | endInValue => "EOF while parsing a value"
  | expectedColon => "expected `:`"
  | expectedListEnd => "expected `,` or `]`"
  | expectedObjectEnd => "expected `,` or `\x7d`"
  | expectedIdent => "expected ident"
  | expectedValue => "expected value"
  | invalidEscape => "invalid escape"
  | invalidNumber => "invalid number"
  | numberOutOfRange => "number out of range"
  | controlCharacter => "control character (\\u0000-\\u001F) found while parsing a string"
  | keyMustBeText => "key must be a string"
  | loneSurrogate => "lone leading surrogate in hex escape"
  | endOfHexEscape => "unexpected end of hex escape"
  | trailingComma => "trailing comma"
  | trailingCharacters => "trailing characters"
  | wrongType found expected =>
    let shown := found.describe
    s!"invalid type: {shown}, expected {expected}"
  | wrongValue found expected =>
    let shown := found.describe
    s!"invalid value: {shown}, expected {expected}"
  | wrongLength length expected => s!"invalid length {length}, expected {expected}"
  | unknownVariant name choices =>
    let shown := choiceText choices
    s!"unknown variant `{name}`, {shown}"
  | missingField name => s!"missing field `{name}`"
  | duplicateField name => s!"duplicate field `{name}`"
  | badInstant e => e.message

end Pinboard.Json
