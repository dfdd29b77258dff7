import Pinboard.Json.Reader

/-!
# Skipping a value

The value of an unknown field is checked for its form and dropped. It may nest to any depth: the
arrays and objects that are open are kept on a stack. Numbers are not held against any range and
surrogates need no partner.
-/

namespace Pinboard.Json.Reader

/-- Checks what follows a backslash. -/
def skipEscape : Reader Unit := do
  match ← peek with
  | none => fail .endInText
  | some 'u' =>
    skip 1
    let _ ← hexDigits
  | some c => if (shortEscape? c).isSome then skip 1 else failNext .invalidEscape

/-- Skips the rest of a string, with its closing quote. -/
def skipText : Cursor → Except Stop (Unit × Cursor)
  | ⟨[], p⟩ => .error (.at .endInText p)
  | ⟨c :: more, p⟩ =>
    let next : Cursor := ⟨more, p.after c⟩
    if c = '"' then .ok ((), next)
    else if c = '\\' then
      match skipEscape next with
      | .error stop => .error stop
      | .ok (_, past) =>
        if past.rest.length ≤ more.length then skipText past
        else .error (.at .invalidEscape past.position)
    else if c.toNat < 0x20 then .error (.at .controlCharacter p)
    else skipText next
termination_by c => c.rest.length
decreasing_by
  all_goals simp only [List.length_cons]; omega

/-- Skips an exponent, whose letter stands next. -/
def skipExponent : Reader Unit := do
  skip 1
  match ← peek with
  | some '+' | some '-' => skip 1
  | _ => pure ()
  let ds ← digits
  if ds.isEmpty then failNext .invalidNumber

/-- Skips a number without its sign. -/
def skipNumber : Reader Unit := do
  match ← peek with
  | some '0' =>
    skip 1
    let ds ← upcomingDigits
    if !ds.isEmpty then failNext .invalidNumber
  | _ =>
    let ds ← digits
    if ds.isEmpty then failNext .invalidNumber
  match ← peek with
  | some '.' =>
    skip 1
    let ds ← digits
    if ds.isEmpty then failNext .invalidNumber
    match ← peek with
    | some 'e' | some 'E' => skipExponent
    | _ => pure ()
  | some 'e' | some 'E' => skipExponent
  | _ => pure ()

/-- What encloses a value. -/
inductive Frame where
  /-- An array. -/
  | list
  /-- An object. -/
  | object
  deriving DecidableEq, Repr

/-- The character that ends a frame. -/
def Frame.closing : Frame → Char
  | list => ']'
  | object => '\x7d'

/-- The complaint when an element is followed by neither a comma nor the end. -/
def Frame.expectedEnd : Frame → Problem
  | list => .expectedListEnd
  | object => .expectedObjectEnd

/-- The complaint when the text ends inside a frame. -/
def Frame.endInside : Frame → Problem
  | list => .endInList
  | object => .endInObject

/-- Skips a scalar, or the opening bracket of the frame it tells. -/
def skipOpening : Reader (Option Frame) := do
  match ← token with
  | none => fail .endInValue
  | some 'n' => do skip 1; literal ['u', 'l', 'l']; pure none
  | some 't' => do skip 1; literal ['r', 'u', 'e']; pure none
  | some 'f' => do skip 1; literal ['a', 'l', 's', 'e']; pure none
  | some '-' => do skip 1; skipNumber; pure none
  | some '"' => do skip 1; skipText; pure none
  | some '[' => do skip 1; pure (some .list)
  | some '\x7b' => do skip 1; pure (some .object)
  | some c => if c.isDigit then do skipNumber; pure none else failNext .expectedValue

/-- Closes the frames that end here and tells which stay open with another element to come; a comma
is read if an element came before. -/
def skipClosings : List Frame → Bool → Reader (List Frame)
  | [], _ => pure []
  | frame :: outer, afterElement => do
    match ← token with
    | none => failNext frame.endInside
    | some c =>
      if c = ',' ∧ afterElement then
        skip 1
        pure (frame :: outer)
      else if c = frame.closing then
        skip 1
        skipClosings outer true
      else if afterElement then failNext frame.expectedEnd
      else pure (frame :: outer)

/-- Skips a key and its colon. -/
def skipKey : Reader Unit := do
  match ← token with
  | none => failNext .endInObject
  | some '"' =>
    skip 1
    skipText
  | some _ => failNext .keyMustBeText
  match ← token with
  | none => failNext .endInObject
  | some ':' => skip 1
  | some _ => failNext .expectedColon

/-- Skips one scalar or bracket, what it closes, and the key of the next element; tells the frames
that are still open. -/
def skipStep (enclosing : List Frame) : Reader (List Frame) := do
  let left ← match ← skipOpening with
    | some frame => skipClosings (frame :: enclosing) false
    | none => skipClosings enclosing true
  match left with
  | .object :: _ => skipKey
  | _ => pure ()
  pure left

/-- Skips to the end of the outermost frame. -/
def skipFrom (enclosing : List Frame) (c : Cursor) : Except Stop (Unit × Cursor) :=
  match skipStep enclosing c with
  | .error stop => .error stop
  | .ok ([], past) => .ok ((), past)
  | .ok (frame :: outer, past) =>
    if past.rest.length < c.rest.length then skipFrom (frame :: outer) past
    else .error (.at .expectedValue past.position)
termination_by c.rest.length

/-- Skips one value of any form. -/
def skipValue : Reader Unit := skipFrom []

end Pinboard.Json.Reader
