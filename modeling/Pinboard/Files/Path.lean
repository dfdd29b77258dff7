import Pinboard.Text.Fields

/-!
# Paths

A path is a text of names separated by slashes. It is relative to the working directory unless it
begins with a slash.
-/

namespace Pinboard.Files

/-- The path of `name` inside a directory. An absolute name stands for itself. -/
def join (dir name : String) : String :=
  if name.toList.head? = some '/' then name
  else if dir = "" then name
  else if dir.toList.getLast? = some '/' then dir ++ name
  else dir ++ "/" ++ name

/-- A path taken apart. -/
structure Path where
  /-- It begins at the root. -/
  absolute : Bool
  /-- The names on the way, the dots among them. -/
  names : List String
  /-- It ends in a slash and so can only mean a directory. -/
  trailing : Bool
  deriving DecidableEq, Repr

/-- Takes a path apart; slashes in a row count as one. -/
def Path.ofText (s : String) : Path :=
  let parts := Text.fields '/' s.toList
  ⟨s.toList.head? = some '/', (parts.filter (!·.isEmpty)).map String.ofList,
    s.toList.getLast? = some '/'⟩

/-- The text of a path that was taken apart. -/
def Path.text (absolute : Bool) (names : List String) : String :=
  (if absolute then "/" else "") ++ "/".intercalate names

/-- The names of a path without the single dots after the first. -/
def Path.steps (p : Path) : List String :=
  match p.names with
  | [] => []
  | first :: more =>
    if first = "." ∧ p.absolute then more.filter (· ≠ ".") else first :: more.filter (· ≠ ".")

end Pinboard.Files
