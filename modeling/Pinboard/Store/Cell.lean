import Pinboard.Decimal.Shortest

/-!
# Cells

What a column of a table can hold, and the order of such values: numbers by value, before texts by
code point, before blobs byte by byte. Code points order texts as their UTF-8 bytes do.
-/

namespace Pinboard.Store

open Decimal

/-- A stored value. -/
inductive Cell where
  /-- A whole number of 64 bits. -/
  | integer (n : Int)
  /-- A double. -/
  | real (x : Double)
  /-- A text. -/
  | text (s : String)
  /-- Bytes. -/
  | blob (bytes : List UInt8)
  deriving DecidableEq

/-- A value that is written to a column: a cell, or nothing. -/
abbrev Given := Option Cell

/-- How a double in a cell is shown: positionally from `0.0001` up to below `10 ^ 16`, and elsewhere
with an exponent that has no plus sign. A tie goes up. -/
def doubleFormat : DoubleFormat := ⟨-4, 15, false, true⟩

namespace Cell

/-- The name of the type of a cell. -/
def typeName : Cell → String
  | integer _ => "Integer"
  | real _ => "Real"
  | text _ => "Text"
  | blob _ => "Blob"

/-- Compares bytes from the first one on; a proper beginning comes first. -/
def compareBytes : List UInt8 → List UInt8 → Ordering
  | [], [] => .eq
  | [], _ :: _ => .lt
  | _ :: _, [] => .gt
  | a :: as, b :: bs => (Ord.compare a b).then (compareBytes as bs)

/-- The order of cells. -/
def compare : Cell → Cell → Ordering
  | integer m, integer n => Ord.compare m n
  | integer m, real y => (y.compareInt m).swap
  | real x, integer n => x.compareInt n
  | real x, real y => x.compare y
  | integer _, _ => .lt
  | real _, _ => .lt
  | text _, integer _ => .gt
  | text _, real _ => .gt
  | text s, text t => Ord.compare s t
  | text _, blob _ => .lt
  | blob a, blob b => compareBytes a b
  | blob _, _ => .gt

/-- The largest of some cells, if there is one. -/
def largest? : List Cell → Option Cell
  | [] => none
  | c :: cs =>
    match largest? cs with
    | none => some c
    | some d => if c.compare d == .lt then some d else some c

end Cell

end Pinboard.Store
