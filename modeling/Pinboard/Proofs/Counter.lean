import Pinboard.Proofs.Footprint
import Pinboard.Proofs.Outcome

/-!
# The counter of dashboards

Every dashboard has a number that the counter has passed, and the counter never goes back. So a new
dashboard gets the number after the counter, whatever dashboards there are.
-/

namespace Pinboard.Store

/-- The numbers of dashboards are those that the counter has passed. -/
structure Tables.Counted (t : Tables) : Prop where
  /-- The counter starts at zero. -/
  start : 0 ≤ t.lastDashboard
  /-- It has passed the number of each dashboard. -/
  passed : ∀ r ∈ t.boards, 0 < r.id ∧ r.id ≤ t.lastDashboard

theorem Tables.counted_fresh : Tables.Counted .fresh :=
  ⟨Int.le_refl 0, fun _ hr => nomatch hr⟩

/-! ## What requests do to the counter -/

theorem Request.makes_or_not (r : Request) :
    (∃ draft, r = .createDashboard draft) ∨ ∀ draft, r ≠ .createDashboard draft := by
  cases r with
  | createDashboard draft => exact Or.inl ⟨draft, rfl⟩
  | _ => exact Or.inr fun _ => Request.noConfusion

/-- Only a new dashboard moves the counter. -/
theorem Effect.lastDashboard_eq {t t' : Tables} {r : Request} {a : Reply} (h : Effect t r a t')
    (hr : ∀ draft, r ≠ .createDashboard draft) : t'.lastDashboard = t.lastDashboard := by
  cases h with
  | createDashboard => exact absurd rfl (hr _)
  | recordUse hput =>
    obtain ⟨rows, rfl⟩ := hput.only_recents
    rfl
  | recordUses hputs =>
    obtain ⟨rows, rfl⟩ := hputs.only_recents
    rfl
  | _ => rfl

theorem Effect.lastDashboard_le {t t' : Tables} {r : Request} {a : Reply} (h : Effect t r a t') :
    t.lastDashboard ≤ t'.lastDashboard := by
  rcases r.makes_or_not with ⟨draft, rfl⟩ | hr
  · cases h with
    | question => exact Int.le_refl _
    | createDashboard => exact Int.le_max_left _ _
  · exact Int.le_of_eq (h.lastDashboard_eq hr).symm

/-- A dashboard that is not new has the number of one that was there before. -/
theorem Effect.counted {t t' : Tables} {r : Request} {a : Reply} (h : Effect t r a t')
    (hc : t.Counted) : t'.Counted := by
  have hstart : 0 ≤ t'.lastDashboard := Int.le_trans hc.start h.lastDashboard_le
  refine ⟨hstart, fun row hrow => ?_⟩
  have hident : row.identity ∈ t'.identities := List.mem_map_of_mem hrow
  have hold : row.identity ∈ t.identities → 0 < row.id ∧ row.id ≤ t'.lastDashboard := by
    intro hmem
    obtain ⟨old, hmem, heq⟩ := List.mem_map.mp hmem
    have hid : old.id = row.id := congrArg Prod.fst heq
    obtain ⟨hpos, hle⟩ := hc.passed old hmem
    rw [← hid]
    exact ⟨hpos, Int.le_trans hle h.lastDashboard_le⟩
  -- Positions may have changed, but not the numbers that rows go by.
  rcases h.footprint.identities with hsub | ⟨draft, number, rfl, hadded⟩
  · exact hold (hsub.subset hident)
  · cases h with
    | question hq => cases hq
    | createDashboard _ hrows _ _ hn =>
      rcases List.mem_append.mp hrow with hmem | hmem
      · refine hold (List.mem_map_of_mem ?_)
        rw [hrows]
        exact hmem
      · rw [List.mem_singleton.mp hmem]
        obtain ⟨-, -, hpos, -⟩ := nextNumber_spec hn
        exact ⟨hpos, Int.le_max_right _ _⟩

section Run

variable (s : Setting) (own : Dialect.Strategy) (r : Request) (c : Connection)

theorem run_counted (hc : c.tables.Counted) : (r.run s own c).2.tables.Counted := by
  rcases run_cases s own r c with ⟨a, -, h⟩ | ⟨-, h⟩
  · exact h.counted hc
  · rw [h]
    exact hc

theorem lastDashboard_le_run : c.tables.lastDashboard ≤ (r.run s own c).2.tables.lastDashboard := by
  rcases run_cases s own r c with ⟨a, -, h⟩ | ⟨-, h⟩
  · exact h.lastDashboard_le
  · exact Int.le_of_eq (by rw [h])

theorem lastDashboard_run_eq (hr : ∀ draft, r ≠ .createDashboard draft) :
    (r.run s own c).2.tables.lastDashboard = c.tables.lastDashboard := by
  rcases run_cases s own r c with ⟨a, -, h⟩ | ⟨-, h⟩
  · exact h.lastDashboard_eq hr
  · rw [h]

end Run

/-! ## The next number -/

theorem foldl_max_eq {taken : List Int} {last : Int} (h : ∀ m ∈ taken, m ≤ last) :
    taken.foldl max last = last := by
  induction taken with
  | nil => rfl
  | cons m taken ih =>
    obtain ⟨hm, htaken⟩ := List.forall_mem_cons.mp h
    rw [List.foldl_cons, Int.max_eq_left hm]
    exact ih htaken

/-- Where a counter has passed all numbers, the next one is that after the counter. -/
theorem nextNumber_passed {ρ : Type} {number : ρ → Int} {rows : List ρ} {last : Int}
    (hstart : 0 ≤ last) (hpassed : ∀ r ∈ rows, number r ≤ last) :
    nextNumber (rows.map number) last =
      if last < greatestInteger then .ok (last + 1) else .error .full := by
  have htaken : ∀ m ∈ rows.map number, m ≤ last := by
    intro m hm
    obtain ⟨r, hr, rfl⟩ := List.mem_map.mp hm
    exact hpassed r hr
  unfold Store.nextNumber
  rw [Int.max_eq_left hstart, foldl_max_eq htaken]

theorem nextNumber_eq_succ {ρ : Type} {number : ρ → Int} {rows : List ρ} {last n : Int}
    (hstart : 0 ≤ last) (hpassed : ∀ r ∈ rows, number r ≤ last)
    (h : nextNumber (rows.map number) last = .ok n) : n = last + 1 := by
  rw [nextNumber_passed hstart hpassed] at h
  split at h
  · exact (Except.ok.inj h).symm
  · cases h

/-- As long as there are numbers, the next one is that after the counter. -/
theorem Tables.Counted.nextNumber {t : Tables} (h : t.Counted)
    (hroom : t.lastDashboard < greatestInteger) :
    nextNumber (t.boards.map (·.id)) t.lastDashboard = .ok (t.lastDashboard + 1) := by
  rw [nextNumber_passed h.start fun r hr => (h.passed r hr).2]
  exact if_pos hroom

/-- A dashboard that is made moves the counter on to its number. -/
theorem Effect.createDashboard_counts {t t' : Tables} {draft : Dashboard} {a : Reply}
    (h : Effect t (.createDashboard draft) a t') (hc : t.Counted) :
    ∃ d, a = .dashboard (some d) ∧ d.id = cut32 (t.lastDashboard + 1) ∧
      t'.lastDashboard = t.lastDashboard + 1 := by
  cases h with
  | question hq => cases hq
  | createDashboard hblank hrows husers horder hn howner =>
    have hpassed := hc.passed
    rw [Tables.boards, hrows] at hpassed
    have hnext := nextNumber_eq_succ hc.start (fun r hr => (hpassed r hr).2) hn
    refine ⟨_, rfl, by rw [hnext], ?_⟩
    show max t.lastDashboard _ = _
    omega

/-- A request makes one dashboard at most. -/
theorem Effect.lastDashboard_le_succ {t t' : Tables} {r : Request} {a : Reply}
    (h : Effect t r a t') (hc : t.Counted) : t'.lastDashboard ≤ t.lastDashboard + 1 := by
  rcases r.makes_or_not with ⟨draft, rfl⟩ | hr
  · obtain ⟨d, -, -, hnext⟩ := h.createDashboard_counts hc
    omega
  · rw [h.lastDashboard_eq hr]
    omega

end Pinboard.Store
