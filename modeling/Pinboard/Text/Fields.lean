/-!
# Fields of a text

Texts that are taken apart at a separator: into all their fields, or into what stands before the
first separator and what comes after it.
-/

namespace Pinboard.Text

/-- The parts of a text between separators. -/
def fields (separator : Char) : List Char → List (List Char)
  | [] => [[]]
  | c :: cs =>
    match fields separator cs with
    | [] => [[c]]
    | part :: parts => if c = separator then [] :: part :: parts else (c :: part) :: parts

/-- What stands before the first separator, and what comes after it. -/
def cut (separator : Char) (cs : List Char) : List Char × List Char :=
  (cs.takeWhile (· ≠ separator), (cs.dropWhile (· ≠ separator)).drop 1)

end Pinboard.Text
