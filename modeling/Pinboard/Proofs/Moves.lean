import Pinboard.Ordering
import Mathlib.Data.List.Perm.Basic
import Mathlib.Data.List.Nodup
import Mathlib.Data.List.Induction
import Mathlib.Tactic.Ring

/-!
# What one-step moves can do

A list in which entries are moved one step at a time can be brought into any order. The entry that
shall come first goes up to the front, which takes one step for each entry before it; what is behind
it is brought into order in the same way, and its moves do not touch the front.
-/

namespace Pinboard

section Moves

variable {α : Type} [BEq α]

/-- The list with an entry moved one step, if it is there and has a neighbour on that side. -/
def moved? (items : List α) (a : α) (d : Direction) : Option (List α) :=
  (items.findIdx? (· == a)).bind fun i => swapAdjacent? items i d

/-- The list after some moves, if each of them can be made. -/
def movedAll? : List α → List (α × Direction) → Option (List α)
  | items, [] => some items
  | items, (a, d) :: moves => do movedAll? (← moved? items a d) moves

theorem movedAll?_append (items : List α) (moves moves' : List (α × Direction)) :
    movedAll? items (moves ++ moves') = (movedAll? items moves).bind (movedAll? · moves') := by
  induction moves generalizing items with
  | nil => rfl
  | cons m moves ih =>
    obtain ⟨a, d⟩ := m
    rw [List.cons_append, movedAll?, movedAll?, Option.bind_eq_bind, Option.bind_assoc]
    exact congrArg _ (funext fun _ => ih _)

end Moves

/-! ## Behind an entry that stays -/

section Behind

variable {α : Type}

theorem exchange_cons (a : α) (items : List α) (i j : Nat) :
    exchange (a :: items) (i + 1) (j + 1) = (exchange items i j).map (a :: ·) := by
  unfold exchange
  simp only [List.getElem?_cons_succ, List.set_cons_succ]
  cases items[i]? <;> cases items[j]? <;> rfl

theorem swapAdjacent?_cons {items swapped : List α} {i : Nat} {d : Direction} (a : α)
    (h : swapAdjacent? items i d = some swapped) :
    swapAdjacent? (a :: items) (i + 1) d = some (a :: swapped) := by
  unfold swapAdjacent? at h ⊢
  obtain ⟨j, hj, hswap⟩ := Option.bind_eq_some_iff.mp h
  have hnext : neighbour? (a :: items).length (i + 1) d = some (j + 1) := by
    cases d <;> simp only [neighbour?, List.length_cons] at hj ⊢ <;> split at hj <;> cases hj
    · rw [if_pos (by omega)]
      congr 1
      omega
    · rw [if_pos (by omega)]
  rw [hnext, Option.bind_eq_bind, Option.bind_some, exchange_cons, hswap]
  rfl

variable [BEq α] [LawfulBEq α]

theorem moved?_cons {items swapped : List α} {a b : α} {d : Direction} (hne : a ≠ b)
    (h : moved? items b d = some swapped) : moved? (a :: items) b d = some (a :: swapped) := by
  unfold moved? at h ⊢
  obtain ⟨i, hi, hswap⟩ := Option.bind_eq_some_iff.mp h
  have hbeq : (a == b) = false := beq_eq_false_iff_ne.mpr hne
  rw [List.findIdx?_cons, hbeq, hi]
  exact swapAdjacent?_cons a hswap

/-- Moves in the rest of a list are moves in the list. -/
theorem movedAll?_cons {items target : List α} {moves : List (α × Direction)} {a : α}
    (hne : ∀ m ∈ moves, a ≠ m.1) (h : movedAll? items moves = some target) :
    movedAll? (a :: items) moves = some (a :: target) := by
  induction moves generalizing items with
  | nil =>
    cases h
    rfl
  | cons m moves ih =>
    obtain ⟨b, d⟩ := m
    obtain ⟨hb, hmoves⟩ := List.forall_mem_cons.mp hne
    obtain ⟨items', hfirst, hrest⟩ := Option.bind_eq_some_iff.mp h
    rw [movedAll?, moved?_cons hb hfirst]
    exact ih hmoves hrest

/-! ## To the front -/

theorem findIdx?_after {before : List α} {a : α} (hnot : a ∉ before) (after : List α) :
    (before ++ a :: after).findIdx? (· == a) = some before.length := by
  have hbefore : before.findIdx? (· == a) = none := by
    rw [List.findIdx?_eq_none_iff]
    intro b hb
    exact beq_eq_false_iff_ne.mpr fun h => hnot (h ▸ hb)
  rw [List.findIdx?_append, hbefore, List.findIdx?_cons]
  simp

theorem moved?_up {before : List α} {a b : α} (hnot : a ∉ before) (hne : a ≠ b) (after : List α) :
    moved? (before ++ b :: a :: after) a .up = some (before ++ a :: b :: after) := by
  have hfind : (before ++ b :: a :: after).findIdx? (· == a) = some (before.length + 1) := by
    have hnot' : a ∉ before ++ [b] := by
      simpa [hne] using hnot
    simpa using findIdx?_after hnot' after
  rw [moved?, hfind, Option.bind_some, swapAdjacent?]
  simp [neighbour?, exchange]

/-- An entry comes to the front by as many moves as there are entries before it. -/
theorem movedAll?_front {before : List α} {a : α} (hnot : a ∉ before) (after : List α) :
    movedAll? (before ++ a :: after) (List.replicate before.length (a, .up)) =
      some (a :: (before ++ after)) := by
  induction before using List.reverseRecOn generalizing after with
  | nil => rfl
  | append_singleton before b ih =>
    have hbefore : a ∉ before := fun h => hnot (List.mem_append_left _ h)
    have hb : a ≠ b := fun h => hnot (List.mem_append_right _ (List.mem_singleton.mpr h))
    rw [List.length_append, List.length_singleton, List.replicate_succ, movedAll?,
      List.append_assoc, List.singleton_append, moved?_up hbefore hb, List.append_assoc]
    exact ih hbefore (b :: after)

/-! ## Every order -/

/-- A list without repetitions is brought into any order by at most `n (n - 1) / 2` moves. -/
theorem exists_moves {items target : List α} (hitems : items.Nodup) (hperm : target.Perm items) :
    ∃ moves, 2 * moves.length ≤ items.length * (items.length - 1) ∧
      (∀ m ∈ moves, m.1 ∈ items) ∧ movedAll? items moves = some target := by
  induction target generalizing items with
  | nil =>
    obtain rfl := hperm.symm.eq_nil
    exact ⟨[], Nat.le_refl _, List.forall_mem_nil _, rfl⟩
  | cons a target ih =>
    obtain ⟨before, after, rfl⟩ := List.append_of_mem (hperm.subset List.mem_cons_self)
    have hrest : target.Perm (before ++ after) :=
      List.Perm.cons_inv (hperm.trans List.perm_middle)
    obtain ⟨hnot, hnodup⟩ := List.nodup_cons.mp (List.perm_middle.nodup_iff.mp hitems)
    obtain ⟨moves, hlength, hmem, hmoves⟩ := ih hnodup hrest
    have hbefore : a ∉ before := fun h => hnot (List.mem_append_left _ h)
    refine ⟨List.replicate before.length (a, .up) ++ moves, ?_, fun m hm => ?_, ?_⟩
    · -- one step for each entry before, and then those of the rest
      simp only [List.length_append, List.length_replicate, List.length_cons] at hlength ⊢
      have hsum : ∀ n, (n + 1) * (n + 1 - 1) = n * (n - 1) + 2 * n := by
        intro n
        cases n with
        | zero => rfl
        | succ n =>
          simp only [Nat.add_sub_cancel]
          ring
      have hwhole := hsum (before.length + after.length)
      rw [← Nat.add_assoc, hwhole]
      omega
    · rcases List.mem_append.mp hm with hm | hm
      · rw [(List.mem_replicate.mp hm).2]
        simp
      · rcases List.mem_append.mp (hmem m hm) with h | h <;> simp [h]
    · rw [movedAll?_append, movedAll?_front hbefore, Option.bind_some]
      exact movedAll?_cons (fun m hm h => hnot (h ▸ hmem m hm)) hmoves

end Behind

end Pinboard
