import Mathlib.Logic.Equiv.Basic
import Pinboard.Ordering

/-!
# Neighbours in a list

An exchange with a neighbour takes place exactly where both entries are. In memory the same holds
for every machine word that a place is given by: the sum that finds the neighbour behind is taken
only below the length, so it is a word again, and only places inside the list are accessed.
-/

namespace Pinboard

/-- One step in a direction leads from one place to another. -/
def Direction.Step : Direction → Nat → Nat → Prop
  | .up, i, j => i = j + 1
  | .down, i, j => j = i + 1

section Lists

variable {α : Type} {items swapped : List α} {i j : Nat} {d : Direction}

theorem neighbour?_eq_some {n : Nat} :
    neighbour? n i d = some j ↔ d.Step i j ∧ i < n ∧ j < n := by
  cases d with
  | up =>
    unfold neighbour? Direction.Step
    dsimp only
    constructor
    · intro h
      split at h <;> cases h
      omega
    · intro h
      rw [if_pos (by omega)]
      congr 1
      omega
  | down =>
    unfold neighbour? Direction.Step
    dsimp only
    constructor
    · intro h
      split at h <;> cases h
      omega
    · intro h
      rw [if_pos (by omega), h.1]

theorem lt_of_exchange (h : exchange items i j = some swapped) :
    i < items.length ∧ j < items.length := by
  unfold exchange at h
  obtain ⟨a, ha, h⟩ := Option.bind_eq_some_iff.mp h
  obtain ⟨b, hb, -⟩ := Option.bind_eq_some_iff.mp h
  exact ⟨(List.getElem?_eq_some_iff.mp ha).1, (List.getElem?_eq_some_iff.mp hb).1⟩

/-- After an exchange, each place holds what the exchange of the two numbers leads to. -/
theorem getElem?_exchange (h : exchange items i j = some swapped) (k : Nat) :
    swapped[k]? = items[Equiv.swap i j k]? := by
  unfold exchange at h
  obtain ⟨a, ha, h⟩ := Option.bind_eq_some_iff.mp h
  obtain ⟨b, hb, h⟩ := Option.bind_eq_some_iff.mp h
  obtain ⟨hi, -⟩ := List.getElem?_eq_some_iff.mp ha
  obtain ⟨hj, -⟩ := List.getElem?_eq_some_iff.mp hb
  cases h
  by_cases hkj : k = j
  · rw [hkj, Equiv.swap_apply_right, ha, List.getElem?_set_self (by simpa using hj)]
  · rw [List.getElem?_set_ne (Ne.symm hkj)]
    by_cases hki : k = i
    · rw [hki, Equiv.swap_apply_left, hb, List.getElem?_set_self hi]
    · rw [List.getElem?_set_ne (Ne.symm hki), Equiv.swap_apply_of_ne_of_ne hki hkj]

theorem exists_exchange (hi : i < items.length) (hj : j < items.length) :
    ∃ swapped, exchange items i j = some swapped := by
  unfold exchange
  rw [List.getElem?_eq_getElem hi, List.getElem?_eq_getElem hj]
  exact ⟨_, rfl⟩

/-- What is exchanged in one list is exchanged in another with the same values. -/
theorem exists_exchange_of_map {β γ : Type} {f : α → γ} {g : β → γ} {others swapped : List β}
    (hmap : items.map f = others.map g) (h : exchange others i j = some swapped) :
    ∃ swapped', exchange items i j = some swapped' ∧ swapped'.map f = swapped.map g := by
  have hlength : items.length = others.length := by
    simpa using congrArg List.length hmap
  obtain ⟨hi, hj⟩ := lt_of_exchange h
  obtain ⟨swapped', hswapped⟩ := exists_exchange (hlength ▸ hi) (hlength ▸ hj)
  refine ⟨swapped', hswapped, List.ext_getElem? fun k => ?_⟩
  rw [List.getElem?_map, List.getElem?_map, getElem?_exchange hswapped, getElem?_exchange h,
    ← List.getElem?_map, ← List.getElem?_map, hmap]

/-- An exchange with a neighbour is undone by one in the other direction, at the place the entry
has come to. -/
theorem exchange_undone (h : exchange items i j = some swapped) :
    exchange swapped j i = some items := by
  obtain ⟨hi, hj⟩ := lt_of_exchange h
  have hlength := (exchange_perm h).length_eq
  obtain ⟨back, hback⟩ := exists_exchange (hlength ▸ hj) (hlength ▸ hi)
  rw [hback]
  congr 1
  refine List.ext_getElem? fun k => ?_
  rw [getElem?_exchange hback, getElem?_exchange h, Equiv.swap_comm j i, Equiv.swap_apply_self]

theorem Direction.Step.opposite (h : d.Step i j) : d.opposite.Step j i := by
  cases d <;> exact h

theorem Direction.Step.unique {k : Nat} (h : d.Step i j) (h' : d.Step i k) : j = k := by
  cases d <;> unfold Direction.Step at h h' <;> omega

end Lists

/-! ## In memory -/

/-- Below a word there is no overflow. -/
theorem nextWord_of_lt {i n : USize} (h : i < n) :
    nextWord i = .ok (i + 1) ∧ (i + 1).toNat = i.toNat + 1 := by
  have hlt := USize.lt_iff_toNat_lt.mp h
  have hn := n.toNat_lt_size
  have hsum : i.toNat + 1 < USize.size := by omega
  constructor
  · exact if_pos hsum
  · rw [USize.toNat_add, USize.toNat_one, Nat.mod_eq_of_lt hsum]

namespace Slice

variable {α : Type} {s s' : Slice α} {i j : USize} {d : Direction}

theorem toNat_length (s : Slice α) : s.length.toNat = s.items.length :=
  USize.toNat_ofNat_of_lt s.fits

theorem lt_length : i < s.length ↔ i.toNat < s.items.length := by
  rw [USize.lt_iff_toNat_lt, toNat_length]

theorem swap_eq_ok (h : exchange s.items i.toNat j.toNat = some s'.items) :
    s.swap i j = .ok s' := by
  unfold swap
  split
  · rename_i swapped hswapped
    rw [h] at hswapped
    cases hswapped
    rfl
  · rename_i hnone
    rw [h] at hnone
    cases hnone

/-- Two places in the list are exchanged. -/
theorem exists_swap (hi : i.toNat < s.items.length) (hj : j.toNat < s.items.length) :
    ∃ s', exchange s.items i.toNat j.toNat = some s'.items ∧ s.swap i j = .ok s' := by
  obtain ⟨swapped, hswapped⟩ := exists_exchange hi hj
  have hfits : swapped.length < USize.size := (exchange_perm hswapped).length_eq ▸ s.fits
  exact ⟨⟨swapped, hfits⟩, hswapped, swap_eq_ok hswapped⟩

/-- From a place in the list, words lead to the neighbour that numbers lead to. -/
theorem neighbour_spec (hi : i < s.length) (d : Direction) : ∃ target,
    s.neighbour i d = .ok target ∧
      target.map USize.toNat = neighbour? s.items.length i.toNat d := by
  cases d with
  | up =>
    refine ⟨_, rfl, ?_⟩
    unfold neighbour?
    by_cases hzero : i = 0
    · simp [hzero]
    · have hpos : 0 < i.toNat := by
        apply Nat.pos_of_ne_zero
        intro h
        exact hzero (USize.toNat_inj.mp (h.trans USize.toNat_zero.symm))
      have hone : (1 : USize) ≤ i := by
        rw [USize.le_iff_toNat_le, USize.toNat_one]
        exact hpos
      rw [if_neg hzero, if_pos ⟨hpos, lt_length.mp hi⟩, Option.map_some,
        USize.toNat_sub_of_le _ _ hone, USize.toNat_one]
  | down =>
    obtain ⟨hnext, hvalue⟩ := nextWord_of_lt hi
    refine ⟨if i + 1 < s.length then some (i + 1) else none, ?_, ?_⟩
    · unfold neighbour
      rw [hnext]
      rfl
    · unfold neighbour?
      rw [← hvalue]
      by_cases hbehind : i + 1 < s.length
      · rw [if_pos hbehind, if_pos (lt_length.mp hbehind)]
        rfl
      · rw [if_neg hbehind, if_neg (mt lt_length.mpr hbehind)]
        rfl

/-- With a neighbour the two are exchanged, and without one nothing is done. -/
theorem swapAdjacent_spec (s : Slice α) (i : USize) (d : Direction) :
    (neighbour? s.items.length i.toNat d = none ∧
      s.swapAdjacent i d = .ok (false, s)) ∨
    ∃ j s', neighbour? s.items.length i.toNat d = some j ∧
      exchange s.items i.toNat j = some s'.items ∧ s.swapAdjacent i d = .ok (true, s') := by
  unfold swapAdjacent
  by_cases hi : i < s.length
  · rw [if_neg (USize.not_le.mpr hi)]
    obtain ⟨target, hok, hsame⟩ := neighbour_spec hi d
    rw [hok]
    cases target with
    | none => exact Or.inl ⟨hsame.symm, rfl⟩
    | some j =>
      obtain ⟨-, hi', hj⟩ := neighbour?_eq_some.mp hsame.symm
      obtain ⟨s', hswap, hdone⟩ := exists_swap hi' hj
      refine Or.inr ⟨j.toNat, s', hsame.symm, hswap, ?_⟩
      show (s.swap i j >>= fun s' => pure (true, s')) = _
      rw [hdone]
      rfl
  · refine Or.inl ⟨?_, if_pos (USize.not_lt.mp hi)⟩
    apply Option.eq_none_iff_forall_ne_some.mpr
    intro j hj
    exact hi (lt_length.mpr (neighbour?_eq_some.mp hj).2.1)

theorem swapAdjacent_moved (h : s.swapAdjacent i d = .ok (true, s')) :
    ∃ j, neighbour? s.items.length i.toNat d = some j ∧
      exchange s.items i.toNat j = some s'.items := by
  rcases swapAdjacent_spec s i d with ⟨-, hok⟩ | ⟨j, s'', hj, hswap, hok⟩
  · rw [hok] at h
    cases h
  · rw [hok] at h
    cases h
    exact ⟨j, hj, hswap⟩

/-- The opposite move at the place that the entry has come to brings the old list back. -/
theorem swapAdjacent_back (h : s.swapAdjacent i d = .ok (true, s'))
    (hj : d.Step i.toNat j.toNat) : s'.swapAdjacent j d.opposite = .ok (true, s) := by
  obtain ⟨n, hn, hswap⟩ := swapAdjacent_moved h
  obtain ⟨hstep, hi, hlt⟩ := neighbour?_eq_some.mp hn
  obtain rfl : n = j.toNat := hstep.unique hj
  have hlength := (exchange_perm hswap).length_eq
  have hback : neighbour? s'.items.length j.toNat d.opposite = some i.toNat :=
    neighbour?_eq_some.mpr ⟨hstep.opposite, hlength ▸ hlt, hlength ▸ hi⟩
  rcases swapAdjacent_spec s' j d.opposite with ⟨hnone, -⟩ | ⟨k, s'', hk, hswap', hok⟩
  · rw [hback] at hnone
    cases hnone
  · rw [hback] at hk
    cases hk
    rw [exchange_undone hswap] at hswap'
    rw [hok, Slice.ext (Option.some.inj hswap')]

theorem swapAdjacent_perm (s : Slice α) (i : USize) (d : Direction) :
    ∃ moved s', s.swapAdjacent i d = .ok (moved, s') ∧ s'.items.Perm s.items := by
  rcases swapAdjacent_spec s i d with ⟨-, hok⟩ | ⟨j, s', -, hswap, hok⟩
  · exact ⟨false, s, hok, List.Perm.refl _⟩
  · exact ⟨true, s', hok, exchange_perm hswap⟩

/-- However often and wherever entries are exchanged, they stay the same ones. -/
theorem swapAll_perm (s : Slice α) (moves : List (USize × Direction)) :
    ∃ s', s.swapAll moves = .ok s' ∧ s'.items.Perm s.items := by
  induction moves generalizing s with
  | nil => exact ⟨s, rfl, List.Perm.refl _⟩
  | cons m moves ih =>
    obtain ⟨moved, s₁, hfirst, hperm⟩ := swapAdjacent_perm s m.1 m.2
    obtain ⟨s₂, hrest, hperm'⟩ := ih s₁
    refine ⟨s₂, ?_, hperm'.trans hperm⟩
    unfold swapAll
    rw [List.foldlM_cons, hfirst]
    exact hrest

end Slice

/-- An exchange with a neighbour in memory never overflows and never leaves the list, whatever word
the place is given by. It takes place exactly if the place and its neighbour both lie in the list,
exchanges these two entries, and otherwise leaves the list as it was; it is the exchange that moves
a dashboard. The opposite exchange at the neighbour's place undoes it, and any run of exchanges
leaves the same entries in some order. -/
theorem neighbours_change_places {α : Type} (s : Slice α) :
    (∀ (i : USize) (d : Direction), ∃ moved s', s.swapAdjacent i d = .ok (moved, s') ∧
      swapAdjacent? s.items i.toNat d = (if moved then some s'.items else none) ∧
      (moved = true ↔ ∃ j, d.Step i.toNat j ∧ i.toNat < s.items.length ∧ j < s.items.length) ∧
      (moved = true → ∀ j, d.Step i.toNat j →
        ∀ k, s'.items[k]? = s.items[Equiv.swap i.toNat j k]?) ∧
      (moved = false → s' = s)) ∧
    (∀ (i j : USize) (d : Direction) (s' : Slice α), s.swapAdjacent i d = .ok (true, s') →
      d.Step i.toNat j.toNat → s'.swapAdjacent j d.opposite = .ok (true, s)) ∧
    ∀ moves : List (USize × Direction), ∃ s', s.swapAll moves = .ok s' ∧
      s'.items.Perm s.items := by
  refine ⟨?_, fun _ _ _ _ h hj => Slice.swapAdjacent_back h hj, Slice.swapAll_perm s⟩
  intro i d
  unfold swapAdjacent?
  simp only [← neighbour?_eq_some]
  rcases Slice.swapAdjacent_spec s i d with ⟨hnone, hok⟩ | ⟨j, s', hj, hswap, hok⟩
  · refine ⟨false, s, hok, ?_, ?_, ?_, fun _ => rfl⟩
    · rw [hnone]
      rfl
    · simp [hnone]
    · intro h
      cases h
  · refine ⟨true, s', hok, ?_, ?_, ?_, ?_⟩
    · rw [hj]
      exact hswap
    · simp [hj]
    · intro _ j' hj' k
      obtain rfl := (neighbour?_eq_some.mp hj).1.unique hj'
      exact getElem?_exchange hswap k
    · intro h
      cases h

end Pinboard
