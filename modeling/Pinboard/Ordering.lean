/-!
# Moving one step in a list

A list that its owner keeps in order by hand: an entry changes places with its neighbour, one step
towards the front or the back.
-/

namespace Pinboard

/-- The two ways to move in a list. -/
inductive Direction where
  /-- Towards the front. -/
  | up
  /-- Towards the back. -/
  | down
  deriving DecidableEq, Repr

namespace Direction

/-- The direction that a flag "upwards" asks for. -/
def ofUpwards : Bool → Direction
  | true => up
  | false => down

/-- The name of a direction. -/
def name : Direction → String
  | up => "up"
  | down => "down"

/-- The other direction. -/
def opposite : Direction → Direction
  | up => down
  | down => up

end Direction

/-- The place next to `i` in a list of a given length, if there is one. -/
def neighbour? (length i : Nat) : Direction → Option Nat
  | .up => if 0 < i ∧ i < length then some (i - 1) else none
  | .down => if i + 1 < length then some (i + 1) else none

/-- The list with the entries at two places exchanged, if both places lie in it. -/
def exchange {α : Type} (items : List α) (i j : Nat) : Option (List α) := do
  let a ← items[i]?
  let b ← items[j]?
  pure ((items.set i b).set j a)

/-- The list with the entry at `i` and its neighbour exchanged, if both places lie in it. -/
def swapAdjacent? {α : Type} (items : List α) (i : Nat) (d : Direction) : Option (List α) := do
  exchange items i (← neighbour? items.length i d)

theorem exchange_perm {α : Type} {items swapped : List α} {i j : Nat}
    (h : exchange items i j = some swapped) : swapped.Perm items := by
  unfold exchange at h
  obtain ⟨a, ha, h⟩ := Option.bind_eq_some_iff.mp h
  obtain ⟨b, hb, h⟩ := Option.bind_eq_some_iff.mp h
  obtain ⟨hi, rfl⟩ := List.getElem?_eq_some_iff.mp ha
  obtain ⟨hj, rfl⟩ := List.getElem?_eq_some_iff.mp hb
  cases h
  exact List.set_set_perm hi hj

/-- Letting two neighbours change places leaves the same entries. -/
theorem swapAdjacent?_perm {α : Type} {items swapped : List α} {i : Nat} {d : Direction}
    (h : swapAdjacent? items i d = some swapped) : swapped.Perm items := by
  obtain ⟨j, -, hswap⟩ := Option.bind_eq_some_iff.mp h
  exact exchange_perm hswap

/-! ## In memory

A list that lies in memory is counted in machine words, and is changed where it lies. A sum may then
leave the words and an access may miss the list; either would stop the program.
-/

/-- What stops a program that counts in machine words. -/
inductive Trap where
  /-- A sum that is no machine word. -/
  | overflow
  /-- An access outside the list. -/
  | outOfRange
  deriving DecidableEq, Repr

/-- A list in memory. -/
@[ext]
structure Slice (α : Type) where
  /-- The entries. -/
  items : List α
  /-- Their number is a machine word. -/
  fits : items.length < USize.size

/-- The next machine word. -/
def nextWord (i : USize) : Except Trap USize :=
  if i.toNat + 1 < USize.size then .ok (i + 1) else .error .overflow

namespace Slice

variable {α : Type}

/-- The number of entries. -/
def length (s : Slice α) : USize := USize.ofNat s.items.length

/-- Exchanges the entries at two places. -/
def swap (s : Slice α) (i j : USize) : Except Trap (Slice α) :=
  match h : exchange s.items i.toNat j.toNat with
  | some swapped => .ok ⟨swapped, (exchange_perm h).length_eq ▸ s.fits⟩
  | none => .error .outOfRange

/-- The place next to one in the list, if there is one. -/
def neighbour (s : Slice α) (current : USize) : Direction → Except Trap (Option USize)
  | .up => pure (if current = 0 then none else some (current - 1))
  | .down => do
    let next ← nextWord current
    pure (if next < s.length then some next else none)

/-- Exchanges the entry at a place with its neighbour, and tells whether there are both. -/
def swapAdjacent (s : Slice α) (current : USize) (d : Direction) : Except Trap (Bool × Slice α) :=
  if s.length ≤ current then pure (false, s)
  else do
    match ← s.neighbour current d with
    | some target => pure (true, ← s.swap current target)
    | none => pure (false, s)

/-- One exchange after another, whatever each of them tells. -/
def swapAll (s : Slice α) (moves : List (USize × Direction)) : Except Trap (Slice α) :=
  moves.foldlM (fun s m => do pure (← s.swapAdjacent m.1 m.2).2) s

end Slice

end Pinboard
