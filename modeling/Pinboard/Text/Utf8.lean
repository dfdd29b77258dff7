/-!
# Texts in UTF-8

Positions in texts are told in bytes, and the length of what comes first is such a position. Bytes
that are no text are read as far as they are one: what cannot be read is replaced.
-/

namespace Pinboard.Text

/-- The number of bytes of a text in UTF-8. -/
def utf8Length : List Char → Nat
  | [] => 0
  | c :: cs => c.utf8Size + utf8Length cs

/-! ## Reading bytes -/

/-- What the first byte of a character of several bytes begins: the bits that it brings, the least
and the greatest second byte, and the number of bytes after that. -/
def lead? (b : Nat) : Option (Nat × Nat × Nat × Nat) :=
  if 0xC2 ≤ b ∧ b ≤ 0xDF then some (b - 0xC0, 0x80, 0xBF, 0)
  else if b = 0xE0 then some (b - 0xE0, 0xA0, 0xBF, 1)
  else if b = 0xED then some (b - 0xE0, 0x80, 0x9F, 1)
  else if 0xE1 ≤ b ∧ b ≤ 0xEF then some (b - 0xE0, 0x80, 0xBF, 1)
  else if b = 0xF0 then some (b - 0xF0, 0x90, 0xBF, 2)
  else if 0xF1 ≤ b ∧ b ≤ 0xF3 then some (b - 0xF0, 0x80, 0xBF, 2)
  else if b = 0xF4 then some (b - 0xF0, 0x80, 0x8F, 2)
  else none

/-- A character that bytes are still missing from. -/
structure Begun where
  /-- The bits so far. -/
  bits : Nat
  /-- The least next byte. -/
  low : Nat
  /-- The greatest next byte. -/
  high : Nat
  /-- The bytes after the next one. -/
  more : Nat

/-- The character that stands for bytes which are none. -/
def replacement : Char := '\uFFFD'

/-- Reads a byte where a character begins: the character that it is, if it is one, and else what it
begins. -/
def beginChar (b : Nat) : List Char × Option Begun :=
  if b < 0x80 then ([Char.ofNat b], none)
  else
    match lead? b with
    | some (bits, low, high, more) => ([], some ⟨bits, low, high, more⟩)
    | none => ([replacement], none)

/-- Reads a byte after others. A character that breaks off is replaced as a whole. -/
def nextByte (state : Option Begun) (b : Nat) : List Char × Option Begun :=
  match state with
  | none => beginChar b
  | some s =>
    if s.low ≤ b ∧ b ≤ s.high then
      let bits := s.bits * 64 + (b - 0x80)
      match s.more with
      | 0 => ([Char.ofNat bits], none)
      | more + 1 => ([], some ⟨bits, 0x80, 0xBF, more⟩)
    else
      let (read, state) := beginChar b
      (replacement :: read, state)

/-- Reads bytes as a text, where a character may have begun already. -/
def decodeFrom (state : Option Begun) : List UInt8 → List Char
  | [] => if state.isSome then [replacement] else []
  | b :: bs =>
    let (read, state) := nextByte state b.toNat
    read ++ decodeFrom state bs

/-- The text that bytes are, with a replacement for whatever is none. -/
def decode (bytes : List UInt8) : String := String.ofList (decodeFrom none bytes)

end Pinboard.Text
