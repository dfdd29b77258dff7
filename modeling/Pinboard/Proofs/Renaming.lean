import Pinboard.Proofs.Counter

/-!
# Renaming dashboards

A renaming gives dashboards other numbers and keeps their order. What an owner is shown, is told and
asks for follows the renaming: a row that is read, a list that is sorted, positions that are written
and the search for a number all commute with it, as long as the numbers stay within 32 bits.
-/

namespace Pinboard.Store

/-- Other numbers for dashboards, in the same order, and none smaller than the one it is for. -/
structure Renaming where
  /-- The number in place of another. -/
  num : Int → Int
  /-- The order is kept. -/
  mono : ∀ m n, m < n → num m < num n
  /-- No number becomes smaller. -/
  le : ∀ n, n ≤ num n

namespace Renaming

theorem num_le {ρ : Renaming} {n last : Int} (h : n ≤ last) : ρ.num n ≤ ρ.num last := by
  rcases Int.lt_or_eq_of_le h with hlt | rfl
  · exact Int.le_of_lt (ρ.mono _ _ hlt)
  · exact Int.le_refl _

theorem num_inj {ρ : Renaming} {m n : Int} : ρ.num m = ρ.num n ↔ m = n := by
  refine ⟨fun h => ?_, congrArg ρ.num⟩
  rcases Int.lt_trichotomy m n with hlt | heq | hgt
  · exact absurd h (Int.ne_of_lt (ρ.mono _ _ hlt))
  · exact heq
  · exact absurd h.symm (Int.ne_of_lt (ρ.mono _ _ hgt))

/-- Every number stays what it is. -/
def refl : Renaming := ⟨fun n => n, fun _ _ h => h, Int.le_refl⟩

/-- The renaming up to a number; the numbers after it follow one another from another number on. -/
def extend (ρ : Renaming) {last : Int} (top : Int) (h : ρ.num last ≤ top) : Renaming where
  num n := if n ≤ last then ρ.num n else n + (top - last)
  mono := by
    intro m n hmn
    have hlast := ρ.le last
    by_cases hn : n ≤ last
    · have hm : m ≤ last := by omega
      rw [if_pos hm, if_pos hn]
      exact ρ.mono m n hmn
    · rw [if_neg hn]
      by_cases hm : m ≤ last
      · have hle : ρ.num m ≤ ρ.num last := num_le hm
        rw [if_pos hm]
        omega
      · rw [if_neg hm]
        omega
  le := by
    intro n
    have hn := ρ.le n
    have hlast := ρ.le last
    split <;> omega

/-- One renaming does to the numbers up to `last` what another does. -/
def Agrees (σ ρ : Renaming) (last : Int) : Prop := ∀ n, n ≤ last → σ.num n = ρ.num n

theorem extend_agrees (ρ : Renaming) {last top : Int} (h : ρ.num last ≤ top) :
    (ρ.extend top h).Agrees ρ last := fun _ hn => if_pos hn

theorem extend_next (ρ : Renaming) {last top : Int} (h : ρ.num last ≤ top) :
    (ρ.extend top h).num (last + 1) = top + 1 := by
  have hlast : ¬ last + 1 ≤ last := by omega
  show (if last + 1 ≤ last then _ else _) = _
  rw [if_neg hlast]
  omega

theorem Agrees.trans {τ σ ρ : Renaming} {last last' : Int} (h : τ.Agrees σ last')
    (h' : σ.Agrees ρ last) (hle : last ≤ last') : τ.Agrees ρ last :=
  fun n hn => (h n (Int.le_trans hn hle)).trans (h' n hn)

/-- The number of 32 bits in place of another. -/
def short (ρ : Renaming) (id : UInt32) : UInt32 := cut32 (ρ.num (wide id))

end Renaming

/-! ## Numbers of 32 bits -/

theorem wide_nonneg (id : UInt32) : 0 ≤ wide id := Int.natCast_nonneg _

theorem wide_lt (id : UInt32) : wide id < 4294967296 := Int.ofNat_lt.mpr id.toNat_lt

theorem wide_cut32 {n : Int} (h0 : 0 ≤ n) (h : n < 4294967296) : wide (cut32 n) = n := by
  unfold wide cut32
  rw [UInt32.toNat_ofNat']
  omega

theorem cut32_wide (id : UInt32) : cut32 (wide id) = id := by
  have hlt : id.toNat < 4294967296 := id.toNat_lt
  have hmod : (id.toNat : Int) % 4294967296 = id.toNat :=
    Int.emod_eq_of_lt (wide_nonneg id) (by omega)
  unfold cut32 wide
  rw [hmod, Int.toNat_natCast, UInt32.ofNat_toNat]

theorem readUInt32_eq {n : Int} (h0 : 0 ≤ n) (h : n < 4294967296) (column : Nat) :
    readUInt32 n column = .ok (cut32 n) := by
  have hn : 0 ≤ n ∧ n ≤ 4294967295 := by omega
  have hmod : n % 4294967296 = n := Int.emod_eq_of_lt h0 h
  unfold readUInt32 cut32
  rw [if_pos hn, hmod]

namespace Renaming

variable {ρ σ : Renaming} {n last : Int}

theorem num_nonneg (ρ : Renaming) (h : 0 ≤ n) : 0 ≤ ρ.num n := Int.le_trans h (ρ.le n)

theorem compare_num (ρ : Renaming) (m n : Int) : compare (ρ.num m) (ρ.num n) = compare m n := by
  have hlt : ρ.num m < ρ.num n ↔ m < n :=
    ⟨fun h => Int.not_le.mp fun hle => Int.not_le.mpr h (num_le hle), ρ.mono m n⟩
  show compareOfLessAndEq _ _ = compareOfLessAndEq _ _
  unfold compareOfLessAndEq
  simp only [hlt, num_inj]

theorem wide_short {id : UInt32} (h : ρ.num (wide id) < 4294967296) :
    wide (ρ.short id) = ρ.num (wide id) :=
  wide_cut32 (ρ.num_nonneg (wide_nonneg id)) h

theorem short_cut32 (h0 : 0 ≤ n) (h : ρ.num n < 4294967296) :
    ρ.short (cut32 n) = cut32 (ρ.num n) := by
  have hn : n < 4294967296 := Int.lt_of_le_of_lt (ρ.le n) h
  rw [short, wide_cut32 h0 hn]

theorem short_refl : refl.short = id := by
  funext n
  exact cut32_wide n

theorem Agrees.short {id : UInt32} (h : σ.Agrees ρ last) (hid : wide id ≤ last) :
    σ.short id = ρ.short id := by
  rw [Renaming.short, Renaming.short, h _ hid]

end Renaming

/-! ## Rows and dashboards -/

/-- The row under another number. -/
def DashboardRow.renamed (ρ : Renaming) (r : DashboardRow) : DashboardRow :=
  { r with id := ρ.num r.id }

/-- The dashboard under another number. -/
def Renaming.dashboard (ρ : Renaming) (d : Dashboard) : Dashboard :=
  { d with id := ρ.short d.id }

/-- The number of the row is one of 32 bits, and stays one. -/
def DashboardRow.Fits (ρ : Renaming) (r : DashboardRow) : Prop :=
  0 ≤ r.id ∧ ρ.num r.id < 4294967296

section Rows

variable {ρ : Renaming} {rows : List DashboardRow}

theorem DashboardRow.Fits.id_eq {r : DashboardRow} (h : r.Fits ρ) :
    wide (cut32 r.id) = r.id ∧ ρ.short (cut32 r.id) = cut32 (ρ.num r.id) :=
  ⟨wide_cut32 h.1 (Int.lt_of_le_of_lt (ρ.le _) h.2), Renaming.short_cut32 h.1 h.2⟩

theorem DashboardRow.read_renamed {r : DashboardRow} (h : r.Fits ρ) :
    (r.renamed ρ).read = ρ.dashboard <$> r.read := by
  have hid : readUInt32 r.id 0 = .ok (cut32 r.id) :=
    readUInt32_eq h.1 (Int.lt_of_le_of_lt (ρ.le _) h.2) 0
  have hnum : readUInt32 (ρ.num r.id) 0 = .ok (ρ.short (cut32 r.id)) := by
    rw [h.id_eq.2]
    exact readUInt32_eq (ρ.num_nonneg h.1) h.2 0
  unfold DashboardRow.read DashboardRow.renamed
  simp only [hid, hnum, except_ok_bind, map_bind, map_pure]
  rfl

theorem mapM_read_renamed (h : ∀ r ∈ rows, r.Fits ρ) :
    (rows.map (·.renamed ρ)).mapM DashboardRow.read =
      List.map ρ.dashboard <$> rows.mapM DashboardRow.read := by
  induction rows with
  | nil => rfl
  | cons r rows ih =>
    obtain ⟨hr, hrows⟩ := List.forall_mem_cons.mp h
    rw [List.map_cons, List.mapM_cons, List.mapM_cons, ih hrows, DashboardRow.read_renamed hr]
    simp only [map_eq_pure_bind, bind_assoc, pure_bind, List.map_cons]

theorem DashboardRow.shownBefore_renamed (a b : DashboardRow) :
    (a.renamed ρ).shownBefore (b.renamed ρ) = a.shownBefore b := by
  unfold DashboardRow.shownBefore DashboardRow.renamed
  rw [ρ.compare_num]

/-- Renamed rows are shown in the same order. -/
theorem mergeSort_renamed (ρ : Renaming) (rows : List DashboardRow) :
    (rows.map (·.renamed ρ)).mergeSort DashboardRow.shownBefore =
      (rows.mergeSort DashboardRow.shownBefore).map (·.renamed ρ) :=
  (List.map_mergeSort fun a _ b _ => (DashboardRow.shownBefore_renamed a b).symm).symm

/-- A renamed row has the renamed number exactly if the row has the number. -/
theorem id_beq_renamed {id : UInt32} (hid : ρ.num (wide id) < 4294967296) :
    (fun r : DashboardRow => r.id == wide (ρ.short id)) ∘ DashboardRow.renamed ρ =
      fun r => r.id == wide id := by
  funext r
  rw [Function.comp_apply, Renaming.wide_short hid, Bool.eq_iff_iff, beq_iff_eq, beq_iff_eq]
  exact Renaming.num_inj

theorem find?_renamed {id : UInt32} (hid : ρ.num (wide id) < 4294967296)
    (rows : List DashboardRow) :
    (rows.map (·.renamed ρ)).find? (·.id == wide (ρ.short id)) =
      (rows.find? (·.id == wide id)).map (·.renamed ρ) := by
  rw [List.find?_map, id_beq_renamed hid]

end Rows

/-! ## Positions -/

section Positions

variable {ρ : Renaming} {owner : UserId}

theorem short_beq {a b : UInt32} (ha : ρ.num (wide a) < 4294967296)
    (hb : ρ.num (wide b) < 4294967296) : (ρ.short a == ρ.short b) = (a == b) := by
  rw [Bool.eq_iff_iff, beq_iff_eq, beq_iff_eq]
  constructor
  · intro h
    have hwide := congrArg wide h
    rw [Renaming.wide_short ha, Renaming.wide_short hb] at hwide
    exact wide_injective (Renaming.num_inj.mp hwide)
  · exact congrArg ρ.short

/-- A renamed number has the place of the number. -/
theorem findIdx?_short {ids : List UInt32} {id : UInt32}
    (hids : ∀ a ∈ ids, ρ.num (wide a) < 4294967296) (hid : ρ.num (wide id) < 4294967296) :
    (ids.map ρ.short).findIdx? (· == ρ.short id) = ids.findIdx? (· == id) := by
  induction ids with
  | nil => rfl
  | cons a ids ih =>
    obtain ⟨ha, hids⟩ := List.forall_mem_cons.mp hids
    rw [List.map_cons, List.findIdx?_cons, List.findIdx?_cons, ih hids, short_beq ha hid]

theorem swapAdjacent?_map {α β : Type} (f : α → β) (items : List α) (i : Nat) (d : Direction) :
    swapAdjacent? (items.map f) i d = (swapAdjacent? items i d).map (List.map f) := by
  unfold swapAdjacent? exchange
  rw [List.length_map]
  cases neighbour? items.length i d with
  | none => rfl
  | some j =>
    simp only [Option.bind_eq_bind, Option.bind_some, List.getElem?_map]
    cases items[i]? with
    | none => rfl
    | some a =>
      cases items[j]? with
      | none => rfl
      | some b => simp [List.map_set]

/-- Positions are written to renamed rows as they are to the rows. -/
theorem placed_renamed {ids : List UInt32} (hids : ∀ a ∈ ids, ρ.num (wide a) < 4294967296)
    (i : Nat) (rows : List DashboardRow) :
    placed owner i (ids.map ρ.short) (rows.map (·.renamed ρ)) =
      (placed owner i ids rows).map (·.renamed ρ) := by
  induction ids generalizing i rows with
  | nil => rfl
  | cons id ids ih =>
    obtain ⟨hid, hids⟩ := List.forall_mem_cons.mp hids
    have hplace : placeAt (fun r => r.id == wide (ρ.short id) && r.owner == wide owner)
          (positionOf i) (rows.map (·.renamed ρ)) =
        (placeAt (fun r => r.id == wide id && r.owner == wide owner) (positionOf i) rows).map
          (·.renamed ρ) := by
      unfold placeAt
      rw [List.map_map, List.map_map]
      refine List.map_congr_left fun r _ => ?_
      have hpred : (ρ.num r.id == ρ.num (wide id)) = (r.id == wide id) := by
        rw [Bool.eq_iff_iff, beq_iff_eq, beq_iff_eq]
        exact Renaming.num_inj
      simp only [Function.comp_apply, DashboardRow.renamed, Renaming.wide_short hid, hpred]
      split <;> rfl
    rw [List.map_cons, placed, placed, hplace]
    exact ih hids (i + 1) _

/-- Writing positions leaves every row with its owner. -/
theorem placed_own (ids : List UInt32) (i : Nat) (rows : List DashboardRow) (o : Int) :
    (placed owner i ids rows).filter (·.owner == o) =
      placed owner i ids (rows.filter (·.owner == o)) := by
  induction ids generalizing i rows with
  | nil => rfl
  | cons id ids ih =>
    have hplace : ∀ chosen : DashboardRow → Bool,
        (placeAt chosen (positionOf i) rows).filter (·.owner == o) =
          placeAt chosen (positionOf i) (rows.filter (·.owner == o)) := by
      intro chosen
      unfold placeAt
      rw [List.filter_map]
      congr 1
      refine List.filter_congr fun r _ => ?_
      rw [Function.comp_apply]
      split <;> rfl
    rw [placed, placed, ih, hplace]

end Positions

end Pinboard.Store
