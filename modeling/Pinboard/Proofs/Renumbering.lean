import Pinboard.Proofs.Removal

/-!
# Writing positions anew

Writing the positions of an owner's dashboards anew keeps the order that they are shown in. A move
and a removal look at this order only, and write the positions of all dashboards that the owner has
then. So nothing is left of the positions before, and it makes no difference whether they had been
written anew.
-/

namespace Pinboard.Store

/-! ## Places over places -/

/-- Where all rows of an owner get places, the places that were written before do not count. -/
theorem placedRow_placedRow {owner : UserId} {i j : Nat} {ids ids' : List Int} {r : DashboardRow}
    (h : r.owner = wide owner → r.id ∈ ids) :
    placedRow owner i ids (placedRow owner j ids' r) = placedRow owner i ids r := by
  by_cases howner : r.owner = wide owner
  · have hmem := h howner
    by_cases hold : r.id ∈ ids' <;> simp [placedRow, howner, hmem, hold]
  · simp [placedRow, howner]

theorem placed_map_placedRow {owner : UserId} {ids : List UInt32} {rows : List DashboardRow}
    (hids : ids.Nodup) (hall : ∀ r ∈ rows, r.owner = wide owner → r.id ∈ ids.map wide)
    (i j : Nat) (ids' : List Int) :
    placed owner i ids (rows.map (placedRow owner j ids')) = placed owner i ids rows := by
  rw [placed_eq_map hids, placed_eq_map hids, List.map_map]
  exact List.map_congr_left fun r hr => placedRow_placedRow (hall r hr)

namespace Tables

/-- The tables with the positions of an owner's dashboards written anew. -/
def renumbered (t : Tables) (owner : UserId) : Tables :=
  { t with dashboards := some (placed owner 0 (t.shownIds owner) t.boards) }

namespace Movable

variable {t : Tables} {owner : UserId} (h : t.Movable owner)
include h

theorem mem_shownIds {r : DashboardRow} (hr : r ∈ t.boards) (howner : r.owner = wide owner) :
    r.id ∈ (t.shownIds owner).map wide := by
  rw [← h.map_id]
  exact List.mem_map_of_mem (mem_shown.mpr ⟨hr, howner⟩)

theorem boards_renumbered : (t.renumbered owner).boards =
    t.boards.map (placedRow owner 0 ((t.shownIds owner).map wide)) :=
  placed_eq_map h.nodup_shownIds 0 t.boards

theorem shown_renumbered : (t.renumbered owner).shown owner = atPlaces (t.shown owner) := by
  have hperm := shown_perm t owner
  rw [← laid_identities]
  exact shown_placed h.ids hperm h.map_id (hperm.length_eq ▸ h.few)

theorem present_renumbered : (t.renumbered owner).present = t.present :=
  present_withBoards h.present (placed owner 0 (t.shownIds owner) t.boards) t.lastDashboard

theorem renumbered : (t.renumbered owner).Movable owner := by
  have hperm : ((t.renumbered owner).boardsOf owner).Perm (atPlaces (t.shown owner)) := by
    rw [← h.shown_renumbered]
    exact (shown_perm _ owner).symm
  have hrow : ∀ r ∈ (t.renumbered owner).boardsOf owner, ∃ r' ∈ t.boardsOf owner, ∃ n : Int,
      r = { r' with order := .integer n } := by
    intro r hr
    obtain ⟨i, hi, rfl⟩ := List.getElem_of_mem (hperm.mem_iff.mp hr)
    have hi' : i < (t.shown owner).length := by simpa [atPlaces] using hi
    exact ⟨_, (shown_perm t owner).mem_iff.mp (List.getElem_mem hi'), i, List.getElem_mapIdx⟩
  refine ⟨h.present_renumbered ▸ h.present, ?_, fun r hr => ?_, fun r hr => ?_, ?_⟩
  · show ((placed owner 0 (t.shownIds owner) t.boards).map (·.id)).Nodup
    rw [placed_ids h.nodup_shownIds]
    exact h.ids
  · obtain ⟨r', hr', n, rfl⟩ := hrow r hr
    exact h.fits r' hr'
  · obtain ⟨r', -, n, rfl⟩ := hrow r hr
    exact ⟨n, rfl⟩
  · rw [hperm.length_eq, atPlaces, List.length_mapIdx, (shown_perm t owner).length_eq]
    exact h.few

theorem shownIds_renumbered : (t.renumbered owner).shownIds owner = t.shownIds owner := by
  unfold shownIds
  rw [h.shown_renumbered]
  refine List.ext_getElem? fun k => ?_
  rw [atPlaces, List.getElem?_map, List.getElem?_map, List.getElem?_mapIdx, Option.map_map]
  rfl

/-- Places for all dashboards of the owner are the same after the positions were written anew. -/
theorem placed_renumbered {ids : List UInt32} (hperm : ids.Perm (t.shownIds owner)) :
    placed owner 0 ids (t.renumbered owner).boards = placed owner 0 ids t.boards := by
  rw [h.boards_renumbered]
  refine placed_map_placedRow (hperm.nodup_iff.mpr h.nodup_shownIds) ?_ 0 0 _
  intro r hr howner
  exact (hperm.map wide).mem_iff.mpr (h.mem_shownIds hr howner)

theorem shownIds_without (id : UInt32) :
    (t.withoutBoard owner id).shownIds owner = (t.shownIds owner).filter (· != id) := by
  unfold shownIds
  rw [h.shown_without, List.filter_map]
  refine congrArg (List.map _) (List.filter_congr fun r hr => ?_)
  obtain ⟨h0, hlt⟩ := h.fits r ((shown_perm t owner).mem_iff.mp hr)
  have hwide := wide_cut32 h0 hlt
  rw [Function.comp_apply, Bool.eq_iff_iff, bne_iff_ne, bne_iff_ne]
  exact not_congr ⟨fun he => wide_injective (hwide.trans he),
    fun he => hwide.symm.trans (congrArg wide he)⟩

theorem shownIds_without_renumbered (id : UInt32) :
    ((t.renumbered owner).withoutBoard owner id).shownIds owner =
      (t.withoutBoard owner id).shownIds owner := by
  rw [h.renumbered.shownIds_without, h.shownIds_without, h.shownIds_renumbered]

/-- The places of the dashboards that are left are the same as well. -/
theorem placed_without_renumbered (id : UInt32) :
    placed owner 0 ((t.withoutBoard owner id).shownIds owner)
        ((t.renumbered owner).boardsWithout owner id) =
      placed owner 0 ((t.withoutBoard owner id).shownIds owner) (t.boardsWithout owner id) := by
  have hleft := h.withoutBoard id
  have hboards : (t.renumbered owner).boardsWithout owner id =
      (t.boardsWithout owner id).map (placedRow owner 0 ((t.shownIds owner).map wide)) := by
    unfold boardsWithout
    rw [h.boards_renumbered, List.filter_map]
    refine congrArg (List.map _) (List.filter_congr fun r _ => ?_)
    rw [Function.comp_apply, placedRow_id, placedRow_owner]
  rw [hboards]
  exact placed_map_placedRow hleft.nodup_shownIds
    (fun _ hr howner => hleft.mem_shownIds hr howner) 0 0 _

theorem hasBoard_renumbered {id : UInt32} :
    (t.renumbered owner).HasBoard owner id ↔ t.HasBoard owner id := by
  rw [← any_iff_hasBoard, ← any_iff_hasBoard, h.boards_renumbered, List.any_map]
  simp only [Function.comp_def, placedRow_id, placedRow_owner]

end Movable

end Tables

/-! ## Requests after writing anew -/

section Reindex

variable {c c' : Connection} {owner : UserId}

theorem reindexDashboards_renumbered (h : c.tables.Movable owner) :
    (reindexDashboards .clear owner).outcome c = (.ok (), c.tables.renumbered owner) := by
  rw [reindexDashboards_outcome h.present, Tables.orderedIds_eq h.present h.fits]
  rfl

/-- Writing the positions anew a second time changes nothing. -/
theorem reindexDashboards_again (h : c.tables.Movable owner)
    (hc' : c'.tables = c.tables.renumbered owner) :
    (reindexDashboards .clear owner).outcome c' = (.ok (), c'.tables) := by
  have h' : c'.tables.Movable owner := hc' ▸ h.renumbered
  rw [reindexDashboards_renumbered h', hc', Tables.renumbered, h.shownIds_renumbered,
    h.placed_renumbered (.refl _)]
  rfl

/-- A move comes to the same after the positions were written anew. -/
theorem moveDashboard_after_reindex (h : c.tables.Movable owner)
    (hc' : c'.tables = c.tables.renumbered owner) (id : UInt32) (d : Direction) :
    ∃ moved, (moveDashboard .clear owner id d c).1 = .ok moved ∧
      (moveDashboard .clear owner id d c').1 = .ok moved ∧
      (moved = true → (moveDashboard .clear owner id d c').2.tables =
        (moveDashboard .clear owner id d c).2.tables) := by
  have h' : c'.tables.Movable owner := hc' ▸ h.renumbered
  have hfirst := moveDashboard_moved h id d
  have hsecond := moveDashboard_moved h' id d
  rw [hc', h.shownIds_renumbered] at hsecond
  cases hmove : moved? (c.tables.shownIds owner) id d with
  | none =>
    rw [hmove] at hfirst hsecond
    exact ⟨false, (Prod.mk.inj hfirst).1, (Prod.mk.inj hsecond).1, fun hno => nomatch hno⟩
  | some swapped =>
    obtain ⟨i, -, hswap⟩ := Option.bind_eq_some_iff.mp hmove
    rw [hmove] at hfirst hsecond
    obtain ⟨hanswer, hleft⟩ := Prod.mk.inj hfirst
    obtain ⟨hanswer', hleft'⟩ := Prod.mk.inj hsecond
    refine ⟨true, hanswer, hanswer', fun _ => ?_⟩
    rw [hleft, hleft', h.placed_renumbered (swapAdjacent?_perm hswap)]
    rfl

/-- A removal comes to the same after the positions were written anew. -/
theorem removeDashboard_after_reindex (hc : c.Steady) (h : c.tables.Movable owner)
    (hknown : ∀ f ∈ c'.known.faults, f.strayColumn? = none)
    (hc' : c'.tables = c.tables.renumbered owner) {id : UInt32}
    (hthere : c.tables.HasBoard owner id) :
    (removeDashboard .clear owner id).outcome c' = (removeDashboard .clear owner id).outcome c := by
  have h' : c'.tables.Movable owner := hc' ▸ h.renumbered
  have hsteady : c'.Steady := by
    refine ⟨fun table => ?_, hknown⟩
    rw [hc', h.present_renumbered]
    exact hc.tables table
  rw [removeDashboard_removed hsteady h', removeDashboard_removed hc h, if_pos hthere,
    if_pos (hc' ▸ h.hasBoard_renumbered.mpr hthere), hc', h.shownIds_without_renumbered,
    h.placed_without_renumbered]
  rfl

/-- What writing the positions of an owner's dashboards anew does, whatever whole numbers they are.
The dashboards stay in the order that they are shown in, at the places 0, 1, 2, and so on; doing it
again changes nothing; and a move that is done and a removal leave the same tables as they would
have without. -/
theorem reindexDashboards_absorbed (hc : c.Steady) (h : c.tables.Movable owner) :
    let c' := (reindexDashboards .clear owner c).2
    (∃ rows, c.tables.InOrder owner rows ∧ (reindexDashboards .clear owner c).1 = .ok () ∧
      Arranged c.tables c'.tables owner rows) ∧
    ((reindexDashboards .clear owner c').1 = .ok () ∧
      (reindexDashboards .clear owner c').2.tables = c'.tables) ∧
    (∀ (id : UInt32) (d : Direction), ∃ moved, (moveDashboard .clear owner id d c).1 = .ok moved ∧
      (moveDashboard .clear owner id d c').1 = .ok moved ∧
      (moved = true → (moveDashboard .clear owner id d c').2.tables =
        (moveDashboard .clear owner id d c).2.tables)) ∧
    ∀ id : UInt32, c.tables.HasBoard owner id →
      (removeDashboard .clear owner id c).1 = .ok () ∧
      (removeDashboard .clear owner id c').1 = .ok () ∧
      (removeDashboard .clear owner id c').2.tables =
        (removeDashboard .clear owner id c).2.tables := by
  intro c'
  obtain ⟨hanswer, hc'⟩ := Prod.mk.inj (reindexDashboards_renumbered h)
  have harranged : Arranged c.tables c'.tables owner (c.tables.shown owner) := by
    rw [show c'.tables = _ from hc']
    exact arranged_placed h (Tables.shown_perm _ owner) h.map_id
  -- a transaction has looked at the tables, so that no fault is remembered after it
  have hknown : ∀ f ∈ c'.known.faults, f.strayColumn? = none := by
    have hfaults : c'.known.faults = [] := runSteps_known .clear _ _ c
    rw [hfaults]
    exact List.forall_mem_nil _
  refine ⟨⟨_, h.inOrder, hanswer, harranged⟩, Prod.mk.inj (reindexDashboards_again h hc'),
    moveDashboard_after_reindex h hc', fun id hthere => ?_⟩
  have hremoved := removeDashboard_removed hc h id
  rw [if_pos hthere] at hremoved
  obtain ⟨hanswer', hleft⟩ := Prod.mk.inj
    (removeDashboard_after_reindex hc h hknown hc' hthere)
  obtain ⟨hgranted, -⟩ := Prod.mk.inj hremoved
  exact ⟨hgranted, hanswer'.trans hgranted, hleft⟩

/-- Of three dashboards, two share the least position that there is and one has the greatest. -/
theorem reindexDashboards_absorbed_in_drifted_layout :
    let t : Tables := { Tables.fresh with
      users := some [⟨1, .text "u"⟩, ⟨2, .text "v"⟩]
      dashboards := some [⟨1, 1, .text "a", .integer 9223372036854775807⟩,
        ⟨2, 2, .text "b", .integer 3⟩, ⟨5, 1, .text "c", .integer (-9223372036854775808)⟩,
        ⟨7, 1, .text "d", .integer (-9223372036854775808)⟩] }
    let c : Connection := ⟨t, {}, 0⟩
    let c' := (reindexDashboards .clear 1 c).2
    c.Steady ∧ t.Movable 1 ∧
      c'.tables.InOrder 1 [⟨5, 1, .text "c", .integer 0⟩, ⟨7, 1, .text "d", .integer 1⟩,
        ⟨1, 1, .text "a", .integer 2⟩] ∧
      (∃ moved, (moveDashboard .clear 1 1 .up c).1 = .ok moved ∧
        (moveDashboard .clear 1 1 .up c').1 = .ok moved) ∧
      (removeDashboard .clear 1 5 c').2.tables = (removeDashboard .clear 1 5 c).2.tables := by
  intro t c c'
  have ht : t.Movable 1 := by decide
  have horder : t.InOrder 1 [⟨5, 1, .text "c", .integer (-9223372036854775808)⟩,
      ⟨7, 1, .text "d", .integer (-9223372036854775808)⟩,
      ⟨1, 1, .text "a", .integer 9223372036854775807⟩] := by decide
  have hc : c.Steady := ⟨fun table => by cases table <;> decide, List.forall_mem_nil _⟩
  obtain ⟨⟨rows, hrows, -, harranged⟩, -, hmove, hremove⟩ :=
    reindexDashboards_absorbed (c := c) hc ht
  obtain ⟨moved, hfirst, hsecond, -⟩ := hmove 1 .up
  have hwritten := harranged.own
  rw [hrows.unique horder] at hwritten
  exact ⟨hc, ht, hwritten, ⟨moved, hfirst, hsecond⟩, (hremove 5 (by decide)).2.2⟩

end Reindex

end Pinboard.Store
