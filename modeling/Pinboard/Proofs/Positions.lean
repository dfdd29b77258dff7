import Pinboard.Proofs.Effect

/-!
# Positions of dashboards

What it means to write positions: the dashboards of one owner get the places that their numbers have
in a list, and no other row changes. The numbers come from the rows in the order they are shown in,
possibly with two neighbours exchanged, so each row gets a place of its own.
-/

namespace Pinboard.Store

theorem readUInt32_eq_ok {n : Int} {column : Nat} {u : UInt32}
    (h : readUInt32 n column = .ok u) : wide u = n := by
  unfold readUInt32 at h
  by_cases hn : 0 ≤ n ∧ n ≤ 4294967295
  · simp only [hn, and_self, if_true, Except.ok.injEq] at h
    subst h
    simp only [wide, UInt32.toNat_ofNat']
    omega
  · simp [hn] at h

/-- The first places fit into 32 bits. -/
theorem positionOf_of_le {i : Nat} (h : i < 2147483648) : positionOf i = i := by
  unfold positionOf
  rw [Int.bmod_def]
  omega

/-! ## Writing places -/

/-- The row with its place in a list of numbers, if it is a dashboard of the owner in the list. -/
def placedRow (owner : UserId) (i : Nat) (ids : List Int) (r : DashboardRow) : DashboardRow :=
  if r.owner = wide owner ∧ r.id ∈ ids then
    { r with order := .integer (positionOf (i + ids.idxOf r.id)) }
  else r

theorem placedRow_id (owner : UserId) (i : Nat) (ids : List Int) (r : DashboardRow) :
    (placedRow owner i ids r).id = r.id := by
  unfold placedRow
  split <;> rfl

theorem placedRow_owner (owner : UserId) (i : Nat) (ids : List Int) (r : DashboardRow) :
    (placedRow owner i ids r).owner = r.owner := by
  unfold placedRow
  split <;> rfl

/-- Where no number comes twice, each row keeps the place that was written to it. -/
theorem placed_eq_map {owner : UserId} {ids : List UInt32} (hids : ids.Nodup) (i : Nat)
    (rows : List DashboardRow) :
    placed owner i ids rows = rows.map (placedRow owner i (ids.map wide)) := by
  induction ids generalizing i rows with
  | nil =>
    have hid : placedRow owner i [] = id := by
      funext r
      simp [placedRow]
    simp [placed, hid]
  | cons id ids ih =>
    obtain ⟨hnot, hids⟩ := List.nodup_cons.mp hids
    have hwide : wide id ∉ ids.map wide := by
      intro h
      obtain ⟨id', hmem, heq⟩ := List.mem_map.mp h
      exact hnot (wide_injective heq ▸ hmem)
    rw [placed, ih hids, placeAt, List.map_map]
    refine List.map_congr_left fun r _ => ?_
    by_cases howner : r.owner = wide owner
    · by_cases hid : r.id = wide id
      · simp [placedRow, howner, hid, hwide]
      · have hid' : (wide id == r.id) = false := beq_eq_false_iff_ne.mpr fun h => hid h.symm
        simp [placedRow, howner, hid, List.idxOf_cons, hid', Nat.add_assoc, Nat.add_comm 1]
    · simp [placedRow, howner]

/-- Writing places keeps the owner of every row. -/
theorem placed_filter {owner : UserId} {ids : List UInt32} (hids : ids.Nodup) (i : Nat)
    (rows : List DashboardRow) (o : Int) :
    (placed owner i ids rows).filter (·.owner == o) =
      (rows.filter (·.owner == o)).map (placedRow owner i (ids.map wide)) := by
  have hpred : (fun r : DashboardRow => r.owner == o) ∘ placedRow owner i (ids.map wide) =
      (·.owner == o) := by
    funext r
    simp [placedRow_owner]
  rw [placed_eq_map hids, List.filter_map, hpred]

/-- Writing places for one owner leaves the rows of every other as they were. -/
theorem placed_other {owner : UserId} {ids : List UInt32} {i : Nat} {rows : List DashboardRow}
    {o : Int} (hids : ids.Nodup) (ho : o ≠ wide owner) :
    (placed owner i ids rows).filter (·.owner == o) = rows.filter (·.owner == o) := by
  rw [placed_filter hids]
  refine (List.map_congr_left fun r hr => ?_).trans (List.map_id _)
  have howner : r.owner = o := by simpa using (List.mem_filter.mp hr).2
  simp [placedRow, howner, ho]

theorem placed_ids {owner : UserId} {ids : List UInt32} {i : Nat} {rows : List DashboardRow}
    (hids : ids.Nodup) : (placed owner i ids rows).map (·.id) = rows.map (·.id) := by
  rw [placed_eq_map hids, List.map_map]
  exact List.map_congr_left fun r _ => placedRow_id owner i _ r

/-! ## The numbers that are shown -/

/-- The numbers of an owner's dashboards are those of its rows, in the order they are shown in. -/
theorem orderedIds_spec {t : Tables} {owner : UserId} {rows : List DashboardRow}
    {ids : List UInt32} (hrows : t.dashboards = some rows) (h : t.orderedIds owner = .ok ids) :
    ids.map wide = ((rows.filter (·.owner == wide owner)).mergeSort
      DashboardRow.shownBefore).map (·.id) := by
  unfold Tables.orderedIds Tables.shownDashboards at h
  rw [Tables.dashboardRows_eq_ok.mpr hrows] at h
  have hread : ∀ (shown : List DashboardRow) (ids : List UInt32),
      (shown.mapM fun r => readUInt32 r.id 0) = .ok ids → ids.map wide = shown.map (·.id) := by
    intro shown
    induction shown with
    | nil =>
      intro ids h
      cases h
      rfl
    | cons r shown ih =>
      intro ids h
      rw [List.mapM_cons] at h
      obtain ⟨u, hu, h⟩ := except_bind_eq_ok.mp h
      obtain ⟨us, hus, h⟩ := except_bind_eq_ok.mp h
      cases h
      rw [List.map_cons, List.map_cons, readUInt32_eq_ok hu, ih us hus]
  exact hread _ _ h

theorem orderedIds_perm {t : Tables} {owner : UserId} {rows : List DashboardRow}
    {ids : List UInt32} (hrows : t.dashboards = some rows) (h : t.orderedIds owner = .ok ids) :
    (ids.map wide).Perm ((rows.filter (·.owner == wide owner)).map (·.id)) := by
  rw [orderedIds_spec hrows h]
  exact (List.mergeSort_perm _ _).map _

end Pinboard.Store
