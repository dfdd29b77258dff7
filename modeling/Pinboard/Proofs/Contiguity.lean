import Pinboard.Proofs.Positions
import Pinboard.Proofs.Session

/-!
# Contiguous positions

In every session that begins on fresh tables, the positions of each owner's dashboards are 0, 1, 2,
and so on, each once. The invariant `Numbered` carries this through every effect: besides contiguity
it says that no two dashboards share a number, so that each row gets a place of its own, and that no
owner has more dashboards than there are positions, so that none wraps around.
-/

namespace Pinboard.Store

/-- The positions of an owner's dashboards. -/
def positions (rows : List DashboardRow) (owner : Int) : List Cell :=
  (rows.filter (·.owner == owner)).map (·.order)

/-- The positions of an owner's dashboards are the numbers from 0 up to how many they are, each
once. -/
def Contiguous (rows : List DashboardRow) (owner : Int) : Prop :=
  (positions rows owner).Perm
    ((List.range (positions rows owner).length).map fun i => .integer (i : Nat))

/-- The dashboards of every owner are in order. -/
structure Numbered (rows : List DashboardRow) : Prop where
  /-- No two dashboards share a number. -/
  ids : (rows.map (·.id)).Nodup
  /-- The positions of every owner are contiguous. -/
  contiguous : ∀ owner, Contiguous rows owner
  /-- No owner has more dashboards than there are positions. -/
  few : ∀ owner, (positions rows owner).length ≤ 2147483648

theorem Numbered.nil : Numbered [] :=
  ⟨List.nodup_nil, fun _ => .nil, fun _ => Nat.zero_le _⟩

theorem length_positions (rows : List DashboardRow) (owner : Int) :
    (positions rows owner).length = (rows.filter (·.owner == owner)).length := by
  simp [positions]

/-- Only the rows of an owner count for its positions. -/
theorem Contiguous.congr {rows rows' : List DashboardRow} {owner : Int}
    (h : rows'.filter (·.owner == owner) = rows.filter (·.owner == owner))
    (hc : Contiguous rows owner) : Contiguous rows' owner := by
  unfold Contiguous positions at hc ⊢
  rw [h]
  exact hc

/-! ## Numbering anew -/

/-- Once every dashboard of an owner has its place in a list of their numbers, the positions are
contiguous. -/
theorem placed_contiguous {owner : UserId} {ids : List UInt32} {rows : List DashboardRow}
    (hids : ids.Nodup)
    (hperm : (ids.map wide).Perm ((rows.filter (·.owner == wide owner)).map (·.id)))
    (hfew : (rows.filter (·.owner == wide owner)).length ≤ 2147483648) :
    Contiguous (placed owner 0 ids rows) (wide owner) := by
  have hnodup : (ids.map wide).Nodup :=
    List.Pairwise.map wide (fun a b h he => h (wide_injective he)) hids
  have hlen : (ids.map wide).length = (rows.filter (·.owner == wide owner)).length := by
    rw [hperm.length_eq, List.length_map]
  have hpos : positions (placed owner 0 ids rows) (wide owner) =
      ((rows.filter (·.owner == wide owner)).map (·.id)).map
        fun n => .integer (positionOf ((ids.map wide).idxOf n)) := by
    rw [positions, placed_filter hids, List.map_map, List.map_map]
    refine List.map_congr_left fun r hr => ?_
    have howner : r.owner = wide owner := by simpa using (List.mem_filter.mp hr).2
    have hmem : r.id ∈ ids.map wide := hperm.mem_iff.mpr (List.mem_map_of_mem hr)
    simp only [Function.comp_apply, placedRow, howner, hmem, and_self, if_true, Nat.zero_add]
  -- from here on the numbers are just entries, each of them once
  generalize ids.map wide = places at hperm hnodup hlen hpos
  have hplaces : (places.map fun n => Cell.integer (positionOf (places.idxOf n))) =
      (List.range places.length).map fun i => .integer (i : Nat) := by
    refine List.ext_getElem (by simp) fun i h1 h2 => ?_
    have hi : i < places.length := by simpa using h1
    rw [List.getElem_map, List.getElem_map, List.getElem_range, hnodup.idxOf_getElem i hi,
      positionOf_of_le (by omega)]
  have hcount : (positions (placed owner 0 ids rows) (wide owner)).length = places.length := by
    rw [hpos, List.length_map, ← hperm.length_eq]
  unfold Contiguous
  rw [hcount, hpos, ← hplaces]
  exact hperm.symm.map _

/-- Once every dashboard of an owner has its place, all positions are in order, if those of the
other owners were. -/
theorem Numbered.placed {owner : UserId} {ids : List UInt32} {rows : List DashboardRow}
    (hids : (rows.map (·.id)).Nodup) (hothers : ∀ o, o ≠ wide owner → Contiguous rows o)
    (hfew : ∀ o, (positions rows o).length ≤ 2147483648)
    (hperm : (ids.map wide).Perm ((rows.filter (·.owner == wide owner)).map (·.id))) :
    Numbered (placed owner 0 ids rows) := by
  have hnodup : ids.Nodup := by
    have hplaces : (ids.map wide).Nodup :=
      hperm.nodup_iff.mpr (hids.sublist (List.filter_sublist.map _))
    exact List.Pairwise.of_map wide (fun _ _ h he => h (congrArg wide he)) hplaces
  have hlength : ∀ o, (positions (Store.placed owner 0 ids rows) o).length =
      (positions rows o).length := by
    intro o
    rw [length_positions, length_positions, placed_filter hnodup, List.length_map]
  refine ⟨?_, fun o => ?_, fun o => by rw [hlength]; exact hfew o⟩
  · rw [placed_ids hnodup]
    exact hids
  by_cases ho : o = wide owner
  · subst ho
    refine placed_contiguous hnodup hperm ?_
    rw [← length_positions]
    exact hfew _
  · exact (hothers o ho).congr (placed_other hnodup ho)

/-! ## The next position -/

theorem largest?_eq_none {cs : List Cell} (h : Cell.largest? cs = none) : cs = [] := by
  cases cs with
  | nil => rfl
  | cons c cs =>
    unfold Cell.largest? at h
    split at h
    · cases h
    · split at h <;> cases h

/-- The largest of some whole numbers is one of them, and no other is larger. -/
theorem largest?_integers {cs : List Cell} (hcs : ∀ c ∈ cs, ∃ n, c = .integer n) {d : Cell}
    (h : Cell.largest? cs = some d) :
    ∃ n, d = .integer n ∧ d ∈ cs ∧ ∀ m, .integer m ∈ cs → m ≤ n := by
  induction cs generalizing d with
  | nil => cases h
  | cons c cs ih =>
    obtain ⟨⟨k, rfl⟩, hrest⟩ := List.forall_mem_cons.mp hcs
    unfold Cell.largest? at h
    cases htop : Cell.largest? cs with
    | none =>
      simp only [htop, Option.some.injEq] at h
      subst h
      refine ⟨k, rfl, List.mem_cons_self, fun m hm => ?_⟩
      rw [largest?_eq_none htop, List.mem_singleton] at hm
      cases hm
      exact Int.le_refl k
    | some e =>
      obtain ⟨n, rfl, hmem, hmax⟩ := ih hrest htop
      have hlt : ((Cell.integer k).compare (.integer n) == .lt) = true ↔ k < n := by
        rw [beq_iff_eq]
        exact Int.compare_eq_lt
      simp only [htop] at h
      by_cases hk : k < n
      · rw [if_pos (hlt.mpr hk)] at h
        cases h
        refine ⟨n, rfl, List.mem_cons_of_mem _ hmem, fun m hm => ?_⟩
        rcases List.mem_cons.mp hm with h | h
        · cases h
          omega
        · exact hmax m h
      · rw [if_neg (mt hlt.mp hk)] at h
        cases h
        refine ⟨k, rfl, List.mem_cons_self, fun m hm => ?_⟩
        rcases List.mem_cons.mp hm with h | h
        · cases h
          omega
        · have := hmax m h
          omega

/-- In contiguous positions, the numbers below their count and no others occur. -/
theorem Contiguous.mem_positions {rows : List DashboardRow} {owner : Int}
    (h : Contiguous rows owner) {c : Cell} : c ∈ positions rows owner ↔
      ∃ i : Nat, i < (positions rows owner).length ∧ c = .integer i := by
  rw [List.Perm.mem_iff h, List.mem_map]
  simp only [List.mem_range, eq_comm]

/-- The last position of an owner, and -1 where it has no dashboard. -/
def lastPosition (rows : List DashboardRow) (owner : Int) : Int :=
  ((positions rows owner).filterMap Cell.toInteger?).max?.getD (-1)

theorem le_lastPosition {rows : List DashboardRow} {owner k : Int}
    (h : .integer k ∈ positions rows owner) : k ≤ lastPosition rows owner := by
  have hk : k ∈ (positions rows owner).filterMap Cell.toInteger? :=
    List.mem_filterMap.mpr ⟨_, h, rfl⟩
  unfold lastPosition
  cases hlast : ((positions rows owner).filterMap Cell.toInteger?).max? with
  | none =>
    rw [List.max?_eq_none_iff.mp hlast] at hk
    cases hk
  | some m => exact (List.max?_eq_some_iff.mp hlast).2 k hk

theorem lastPosition_eq {rows : List DashboardRow} {owner m : Int}
    (hcells : ∀ c ∈ positions rows owner, ∃ n, c = .integer n)
    (hmem : .integer m ∈ positions rows owner)
    (hmax : ∀ n, .integer n ∈ positions rows owner → n ≤ m) : lastPosition rows owner = m := by
  have hlast : ((positions rows owner).filterMap Cell.toInteger?).max? = some m := by
    refine List.max?_eq_some_iff.mpr ⟨List.mem_filterMap.mpr ⟨_, hmem, rfl⟩, ?_⟩
    intro n hn
    obtain ⟨c, hc, hread⟩ := List.mem_filterMap.mp hn
    obtain ⟨k, rfl⟩ := hcells c hc
    cases hread
    exact hmax _ hc
  unfold lastPosition
  rw [hlast]
  rfl

/-- The next position is the one after the last. There is none if it has more than 32 bits. -/
theorem nextOrder_eq {t : Tables} {owner : UserId} {rows : List DashboardRow}
    (hrows : t.dashboards = some rows)
    (hcells : ∀ c ∈ positions rows (wide owner), ∃ n, c = .integer n) :
    ∃ e, t.nextOrder owner =
      if -2147483648 ≤ lastPosition rows (wide owner) + 1 ∧
          lastPosition rows (wide owner) + 1 ≤ 2147483647 then
        .ok (Int32.ofInt (lastPosition rows (wide owner) + 1))
      else .error e := by
  unfold Tables.nextOrder
  rw [Tables.dashboardRows_eq_ok.mpr hrows, except_ok_bind]
  cases htop : Cell.largest? ((rows.filter (·.owner == wide owner)).map (·.order)) with
  | none =>
    have hnone : lastPosition rows (wide owner) = -1 := by
      unfold lastPosition positions
      rw [largest?_eq_none htop]
      rfl
    rw [hnone]
    exact ⟨.full, rfl⟩
  | some c =>
    obtain ⟨n, rfl, hmem, hmax⟩ := largest?_integers hcells htop
    rw [lastPosition_eq hcells hmem hmax]
    show ∃ e, nextPosition (.integer n) = _
    unfold nextPosition Cell.toInteger?
    by_cases hn : n < greatestInteger
    · exact ⟨.outOfRange (n + 1) 0, if_pos hn⟩
    · -- a number that no cell holds has more than 32 bits as well
      have hwide : ¬ (-2147483648 ≤ n + 1 ∧ n + 1 ≤ 2147483647) := by
        unfold greatestInteger at hn
        omega
      refine ⟨.wrongType (.real (.zero false)) 0 nextOrderColumn, ?_⟩
      rw [if_neg hwide]
      exact if_neg hn

theorem Contiguous.integers {rows : List DashboardRow} {owner : Int} (h : Contiguous rows owner) :
    ∀ c ∈ positions rows owner, ∃ n, c = .integer n := by
  intro c hc
  obtain ⟨i, -, rfl⟩ := h.mem_positions.mp hc
  exact ⟨i, rfl⟩

/-- The last of contiguous positions is one less than their count. -/
theorem Contiguous.lastPosition {rows : List DashboardRow} {owner : Int}
    (h : Contiguous rows owner) :
    lastPosition rows owner + 1 = (positions rows owner).length := by
  rcases Nat.eq_zero_or_pos (positions rows owner).length with hnone | hsome
  · unfold Store.lastPosition
    rw [hnone, List.eq_nil_of_length_eq_zero hnone]
    rfl
  · have hmem := h.mem_positions.mpr ⟨(positions rows owner).length - 1, by omega, rfl⟩
    rw [lastPosition_eq h.integers hmem fun n hn => ?_]
    · omega
    · obtain ⟨i, hi, hni⟩ := h.mem_positions.mp hn
      cases hni
      omega

/-- Where the positions of an owner are contiguous, the next one is their count, and it fits into
32 bits. -/
theorem nextOrder_spec {t : Tables} {owner : UserId} {rows : List DashboardRow} {order : Int32}
    (hrows : t.dashboards = some rows) (hc : Contiguous rows (wide owner))
    (h : t.nextOrder owner = .ok order) :
    order.toInt = (positions rows (wide owner)).length ∧
      (positions rows (wide owner)).length ≤ 2147483647 := by
  obtain ⟨e, hnext⟩ := nextOrder_eq hrows hc.integers
  rw [hc.lastPosition, h] at hnext
  split at hnext
  · rename_i hfits
    cases hnext
    exact ⟨Int32.toInt_ofInt_of_le (by omega) (by omega), by omega⟩
  · cases hnext

/-- A dashboard that is added at the next position keeps the positions in order. -/
theorem Numbered.append {rows : List DashboardRow} {r : DashboardRow} (hn : Numbered rows)
    (hid : ∀ r' ∈ rows, r'.id ≠ r.id) (horder : r.order = .integer (positions rows r.owner).length)
    (hfew : (positions rows r.owner).length ≤ 2147483647) : Numbered (rows ++ [r]) := by
  have hpos : ∀ o, positions (rows ++ [r]) o =
      if r.owner = o then positions rows o ++ [r.order] else positions rows o := by
    intro o
    unfold positions
    by_cases ho : r.owner = o <;> simp [List.filter_append, ho]
  refine ⟨nodup_map_append hn.ids hid, fun o => ?_, fun o => ?_⟩
  · have hc := hn.contiguous o
    unfold Contiguous at hc ⊢
    rw [hpos]
    by_cases ho : r.owner = o
    · subst ho
      rw [if_pos rfl, horder, List.length_append, List.length_singleton, List.range_succ,
        List.map_append]
      exact hc.append_right _
    · rw [if_neg ho]
      exact hc
  · rw [hpos]
    by_cases ho : r.owner = o
    · subst ho
      rw [if_pos rfl, List.length_append, List.length_singleton]
      omega
    · rw [if_neg ho]
      exact hn.few o

/-! ## Every effect -/

/-- The positions stay in order when all dashboards of an owner go. -/
theorem Numbered.withoutOwner {rows : List DashboardRow} (hn : Numbered rows) (id : Int) :
    Numbered (rows.filter fun r => !(r.owner == id)) := by
  have hpos : ∀ o, positions (rows.filter fun r => !(r.owner == id)) o =
      if o = id then [] else positions rows o := by
    intro o
    unfold positions
    rw [List.filter_filter]
    by_cases ho : o = id
    · subst ho
      simp
    · rw [if_neg ho]
      congr 1
      refine List.filter_congr fun r _ => ?_
      by_cases hr : r.owner = o <;> simp [hr, ho]
  refine ⟨hn.ids.sublist (List.filter_sublist.map _), fun o => ?_, fun o => ?_⟩
  · have hc := hn.contiguous o
    unfold Contiguous at hc ⊢
    rw [hpos]
    by_cases ho : o = id
    · rw [if_pos ho]
      exact .nil
    · rw [if_neg ho]
      exact hc
  · rw [hpos]
    by_cases ho : o = id
    · rw [if_pos ho]
      exact Nat.zero_le _
    · rw [if_neg ho]
      exact hn.few o

/-- There is a table of dashboards, and its positions are in order. -/
def Tables.Ordered (t : Tables) : Prop := ∃ rows, t.dashboards = some rows ∧ Numbered rows

theorem Tables.Ordered.numbered {t : Tables} {rows : List DashboardRow} (h : t.Ordered)
    (hrows : t.dashboards = some rows) : Numbered rows := by
  obtain ⟨rows', hrows', hn⟩ := h
  cases hrows.symm.trans hrows'
  exact hn

/-- Whatever a granted request does, it leaves the positions in order. -/
theorem Effect.ordered {t t' : Tables} {r : Request} {a : Reply} (he : Effect t r a t')
    (h : t.Ordered) : t'.Ordered := by
  cases he with
  | question hq => exact h
  | createUser hblank hrows hn hname => exact h
  | removeUser hrows hid =>
    rename_i id users
    obtain ⟨rows, hrows, hn⟩ := h
    refine ⟨_, ?_, hn.withoutOwner (wide id)⟩
    simp only [Tables.withoutBelongings, hrows, Option.map_some]
  | createDashboard hblank hrows husers horder hnum howner =>
    have hn := h.numbered hrows
    obtain ⟨h1, h2⟩ := nextOrder_spec hrows (hn.contiguous _) horder
    exact ⟨_, rfl, hn.append (nextNumber_ne hnum) (by rw [h1]) h2⟩
  | moved hrows hids hswap =>
    have hn := h.numbered hrows
    obtain ⟨i, -, hswap⟩ := Option.bind_eq_some_iff.mp hswap
    refine ⟨_, rfl, .placed hn.ids (fun o _ => hn.contiguous o) hn.few ?_⟩
    exact ((swapAdjacent?_perm hswap).map wide).trans (orderedIds_perm hrows hids)
  | unmoved hids hswap => exact h
  | reindexDashboards hrows hids =>
    have hn := h.numbered hrows
    exact ⟨_, rfl, .placed hn.ids (fun o _ => hn.contiguous o) hn.few
      (orderedIds_perm hrows hids)⟩
  | removeDashboard hrows hid hleft hids =>
    rename_i owner id rows left ids
    have hn := h.numbered hrows
    have hsub : left.Sublist rows := hleft ▸ List.filter_sublist
    refine ⟨_, rfl, .placed (hn.ids.sublist (hsub.map _)) (fun o ho => ?_) (fun o => ?_)
      (orderedIds_perm rfl hids)⟩
    · refine (hn.contiguous o).congr ?_
      rw [hleft, List.filter_filter]
      refine List.filter_congr fun r _ => ?_
      by_cases hr : r.owner = o <;> simp [hr, ho]
    · rw [length_positions]
      have := hn.few o
      rw [length_positions] at this
      exact Nat.le_trans (hsub.filter _).length_le this
  | createTag hblank hrows husers hkey howner => exact h
  | removeTag hrows hrecents hkey => exact h
  | recordUse hput =>
    obtain ⟨rows, rfl⟩ := hput.only_recents
    exact h
  | recordUses hput =>
    obtain ⟨recents, rfl⟩ := hput.only_recents
    exact h

theorem Tables.Ordered.addMissing {t : Tables} (h : t.Ordered) : t.addMissing.Ordered := by
  obtain ⟨rows, hrows, hn⟩ := h
  exact ⟨rows, by simp [Tables.addMissing, hrows], hn⟩

/-- In every session that begins on fresh tables, whatever the stores are asked for and whatever
surrounds each step, the positions of each owner's dashboards are 0, 1, 2, and so on, each once. -/
theorem positions_contiguous (clients : Nat → Option Client) (steps : List Step) (owner : Int) :
    ∃ rows, ((Session.mk .fresh clients).run steps).2.tables.dashboards = some rows ∧
      Contiguous rows owner := by
  have hstart : Tables.Ordered .fresh := ⟨[], rfl, Numbered.nil⟩
  have hrun : ((Session.mk .fresh clients).run steps).2.tables.Ordered :=
    Session.run_keeps (fun _ h => h.addMissing) (fun _ _ _ _ he h => he.ordered h) hstart steps
  obtain ⟨rows, hrows, hn⟩ := hrun
  exact ⟨rows, hrows, hn.contiguous owner⟩

end Pinboard.Store
