/-!
# Failures

What a caller is told when an operation is refused: the kind of failure and a text.
-/

namespace Pinboard

/-- The kinds of failure. -/
inductive FailureKind where
  /-- What was asked for is not there. -/
  | notFound
  /-- What was asked for makes no sense. -/
  | invalidInput
  /-- What was to be made exists already. -/
  | conflict
  /-- The store could not do it. -/
  | internal
  deriving DecidableEq, Repr

/-- The name of a kind. -/
def FailureKind.name : FailureKind → String
  | notFound => "NotFound"
  | invalidInput => "InvalidInput"
  | conflict => "Conflict"
  | internal => "Internal"

/-- The words that a kind puts before the text. -/
def FailureKind.label : FailureKind → String
  | notFound => "Not found"
  | invalidInput => "Invalid input"
  | conflict => "Conflict"
  | internal => "Internal error"

/-- A failure as it is reported. -/
structure Failure where
  /-- The kind. -/
  kind : FailureKind
  /-- What exactly failed. -/
  text : String
  deriving DecidableEq, Repr

/-- The whole message. -/
def Failure.message (f : Failure) : String :=
  let label := f.kind.label
  let text := f.text
  s!"{label}: {text}"

end Pinboard
