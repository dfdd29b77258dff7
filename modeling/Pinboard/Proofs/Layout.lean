import Pinboard.Proofs.Legibility
import Pinboard.Proofs.Moves

/-!
# Laying out dashboards by hand

Where places are written to the dashboards of an owner, they are shown in the order of these places,
whatever their positions were before. So a move acts on what is shown as it acts on a list, and
since one-step moves bring a list into any order, they bring the dashboards of an owner into any
order.
-/

namespace Pinboard.Store

/-! ## The order that rows are shown in -/

/-- What a dashboard is shown by: its position, and then its number. -/
def DashboardRow.rank (r : DashboardRow) : Int ×ₗ Int := toLex (r.order.place, r.id)

theorem DashboardRow.rank_le {a b : DashboardRow} : a.rank ≤ b.rank ↔
    a.order.place < b.order.place ∨ a.order.place = b.order.place ∧ a.id ≤ b.id :=
  Prod.Lex.toLex_le_toLex

section Order

variable {rows L : List DashboardRow}

theorem shownBefore_eq {a b : DashboardRow} (ha : a.order = .integer a.order.place)
    (hb : b.order = .integer b.order.place) : a.shownBefore b = decide (a.rank ≤ b.rank) := by
  have hcells : a.order.compare b.order = compare a.order.place b.order.place := by
    rw [ha, hb]
    rfl
  rw [Bool.eq_iff_iff, decide_eq_true_iff, DashboardRow.rank_le, DashboardRow.shownBefore, hcells,
    Ordering.isLE_then_iff_or, Int.compare_eq_lt, Int.compare_eq_eq, Int.isLE_compare]

theorem mergeSort_shownBefore (horder : ∀ r ∈ rows, r.order = .integer r.order.place) :
    rows.mergeSort DashboardRow.shownBefore = rows.mergeSort (·.rank ≤ ·.rank) :=
  mergeSort_congr fun a ha b hb => shownBefore_eq (horder a ha) (horder b hb)

/-- Rows in the order of their ranks are in the order they are shown in. -/
theorem mergeSort_eq_of_ranked (hL : L.Perm rows) (hids : (rows.map (·.id)).Nodup)
    (horder : ∀ r ∈ rows, r.order = .integer r.order.place)
    (hranked : L.Pairwise (·.rank ≤ ·.rank)) : rows.mergeSort DashboardRow.shownBefore = L := by
  rw [mergeSort_shownBefore horder]
  refine List.Perm.eq_of_pairwise (fun a b ha hb hab hba => ?_)
    (pairwise_mergeSort_le DashboardRow.rank rows) hranked ((List.mergeSort_perm _ _).trans hL.symm)
  have hid : a.id = b.id := (Prod.mk.inj (toLex_inj.mp (le_antisymm hab hba))).2
  exact List.inj_on_of_nodup_map hids (List.mem_mergeSort.mp ha) (hL.mem_iff.mp hb) hid

end Order

/-! ## Rows with their places -/

/-- The dashboards with some identities, each at its place in the list. -/
def laid (identities : List (Int × Int × Cell)) : List DashboardRow :=
  identities.mapIdx fun i d => ⟨d.1, d.2.1, d.2.2, .integer i⟩

section Laid

variable {L : List (Int × Int × Cell)}

theorem length_laid : (laid L).length = L.length := List.length_mapIdx

theorem getElem_laid {i : Nat} (h : i < (laid L).length) (hi : i < L.length) :
    (laid L)[i] = ⟨L[i].1, L[i].2.1, L[i].2.2, .integer i⟩ :=
  List.getElem_mapIdx

theorem laid_identity : (laid L).map (·.identity) = L := by
  refine List.ext_getElem (by simp [length_laid]) fun i h1 h2 => ?_
  rw [List.getElem_map, getElem_laid _ h2]
  rfl

theorem order_of_mem_laid {r : DashboardRow} (h : r ∈ laid L) :
    r.order = .integer r.order.place := by
  obtain ⟨i, hi, rfl⟩ := List.getElem_of_mem h
  rw [getElem_laid _ (length_laid ▸ hi)]
  rfl

theorem ranked_laid : (laid L).Pairwise (·.rank ≤ ·.rank) := by
  refine List.pairwise_iff_getElem.mpr fun i j hi hj hlt => ?_
  rw [getElem_laid _ (length_laid ▸ hi), getElem_laid _ (length_laid ▸ hj), DashboardRow.rank_le]
  exact Or.inl (Int.ofNat_lt.mpr hlt)

end Laid

/-- Rows that are given the places of their numbers in a list are laid out in the order of the
list. -/
theorem map_placedRow {owner : UserId} {ids : List UInt32} {L : List DashboardRow}
    (howner : ∀ r ∈ L, r.owner = wide owner) (hids : ids.Nodup)
    (hplaces : L.map (·.id) = ids.map wide) (hfew : L.length ≤ 2147483648) :
    L.map (placedRow owner 0 (ids.map wide)) = laid (L.map (·.identity)) := by
  have hnodup : (ids.map wide).Nodup :=
    List.Pairwise.map wide (fun a b h he => h (wide_injective he)) hids
  refine List.ext_getElem (by simp [length_laid]) fun i h1 h2 => ?_
  have hi : i < L.length := by simpa using h1
  have hi' : i < (ids.map wide).length := by
    rw [← hplaces, List.length_map]
    exact hi
  have hid : (ids.map wide)[i] = L[i].id := by
    rw [List.getElem_of_eq hplaces.symm hi', List.getElem_map]
  have hmem : L[i].id ∈ ids.map wide := hid ▸ List.getElem_mem hi'
  have hplace : (ids.map wide).idxOf L[i].id = i := by
    rw [← hid]
    exact hnodup.idxOf_getElem i hi'
  rw [List.getElem_map, getElem_laid _ (length_laid ▸ h2), placedRow,
    if_pos ⟨howner _ (List.getElem_mem hi), hmem⟩, hplace, Nat.zero_add,
    positionOf_of_le (by omega), List.getElem_map]
  rfl

namespace Tables

variable {t : Tables} {owner : UserId}

theorem boardsOf_ids (hids : (t.boards.map (·.id)).Nodup) :
    ((t.boardsOf owner).map (·.id)).Nodup :=
  hids.sublist (List.filter_sublist.map _)

/-- Once places are written to the dashboards of an owner, they are shown in this order. -/
theorem shown_placed (hids : (t.boards.map (·.id)).Nodup) {ids : List UInt32}
    {L : List DashboardRow} (hL : L.Perm (t.boardsOf owner))
    (hplaces : L.map (·.id) = ids.map wide) (hfew : L.length ≤ 2147483648) :
    Tables.shown { t with dashboards := some (placed owner 0 ids t.boards) } owner =
      laid (L.map (·.identity)) := by
  have hnodup : ids.Nodup :=
    List.Nodup.of_map wide (hplaces ▸ (hL.map _).nodup_iff.mpr (boardsOf_ids hids))
  have howner : ∀ r ∈ L, r.owner = wide owner := by
    intro r hr
    simpa using (List.mem_filter.mp (hL.mem_iff.mp hr)).2
  have hlaid := map_placedRow howner hnodup hplaces hfew
  have hrows : (placed owner 0 ids t.boards).filter (·.owner == wide owner) =
      (t.boardsOf owner).map (placedRow owner 0 (ids.map wide)) :=
    placed_filter hnodup 0 t.boards (wide owner)
  have hperm : (laid (L.map (·.identity))).Perm
      ((t.boardsOf owner).map (placedRow owner 0 (ids.map wide))) :=
    hlaid ▸ hL.map _
  show ((placed owner 0 ids t.boards).filter (·.owner == wide owner)).mergeSort _ = _
  rw [hrows]
  refine mergeSort_eq_of_ranked hperm ?_ ?_ ranked_laid
  · rw [List.map_map, Function.comp_def]
    simp only [placedRow_id]
    exact boardsOf_ids hids
  · exact fun r hr => order_of_mem_laid (hperm.mem_iff.mpr hr)

theorem shown_perm (t : Tables) (owner : UserId) : (t.shown owner).Perm (t.boardsOf owner) :=
  List.mergeSort_perm _ _

theorem Kept.few_shown (hk : t.Kept) (owner : UserId) :
    (t.shown owner).length ≤ 2147483648 := by
  have hfew := (hk.ordered.numbered hk.sound.boards_eq).few (wide owner)
  rw [length_positions] at hfew
  rw [(shown_perm t owner).length_eq]
  exact hfew

/-- The dashboards of an owner are shown at the places that they have. -/
theorem Kept.shown_laid (hk : t.Kept) (owner : UserId) :
    t.shown owner = laid ((t.shown owner).map (·.identity)) := by
  have hnumbered := hk.ordered.numbered hk.sound.boards_eq
  have horder : ∀ r ∈ t.boardsOf owner, r.order = .integer r.order.place := by
    intro r hr
    obtain ⟨n, hn, -⟩ := hnumbered.order (List.mem_filter.mp hr).1
    rw [hn]
    rfl
  have hperm := shown_perm t owner
  have hsorted : ((t.shown owner).map (·.order.place)).Pairwise (· ≤ ·) := by
    rw [List.pairwise_map, shown, mergeSort_shownBefore horder]
    refine (pairwise_mergeSort_le DashboardRow.rank _).imp fun {a b} hab => ?_
    rcases DashboardRow.rank_le.mp hab with h | ⟨h, -⟩ <;> omega
  have hnumbers : ((t.shown owner).map (·.order.place)).Perm
      ((List.range (t.shown owner).length).map Int.ofNat) := by
    have hcontiguous := (hnumbered.contiguous (wide owner)).map Cell.place
    rw [positions, List.map_map, List.map_map, List.length_map] at hcontiguous
    rw [hperm.length_eq]
    exact (hperm.map _).trans hcontiguous
  -- sorted, the positions 0, 1, 2, … stand in their order
  have hplaces : (t.shown owner).map (·.order.place) =
      (List.range (t.shown owner).length).map Int.ofNat :=
    List.Perm.eq_of_pairwise (fun _ _ _ _ => Int.le_antisymm) hsorted
      (List.pairwise_map.mpr
        (List.pairwise_lt_range.imp fun h => Int.ofNat_le.mpr (Nat.le_of_lt h)))
      hnumbers
  refine List.ext_getElem (by simp [length_laid]) fun i h1 h2 => ?_
  have hplace : (t.shown owner)[i].order.place = (i : Int) := by
    have hi : i < ((t.shown owner).map (·.order.place)).length := by simpa using h1
    have hget := List.getElem_of_eq hplaces hi
    simpa using hget
  have hcell := horder _ (hperm.mem_iff.mp (List.getElem_mem h1))
  rw [hplace] at hcell
  rw [getElem_laid _ (length_laid ▸ h2), List.getElem_map]
  unfold DashboardRow.identity
  dsimp only
  rw [← hcell]

end Tables

/-! ## Moves of what is shown -/

/-- The number of a dashboard as it is asked for. -/
def shortId (d : Int × Int × Cell) : UInt32 := cut32 d.1

/-- Numbers of 32 bits tell the dashboards of an owner apart. -/
theorem Tables.Kept.nodup_shortIds {t : Tables} (hk : t.Kept)
    (hroom : t.lastDashboard < 4294967296) (owner : UserId) :
    (((t.shown owner).map (·.identity)).map shortId).Nodup := by
  have hids := (hk.ordered.numbered hk.sound.boards_eq).ids
  have hrows : (t.shown owner).Nodup :=
    (shown_perm t owner).nodup_iff.mpr (.of_map _ (boardsOf_ids hids))
  rw [List.map_map]
  refine hrows.map_on fun a ha b hb hab => ?_
  have hid : a.id = b.id := by
    obtain ⟨ha0, ha⟩ := (hk.board hroom (mem_shown.mp ha).1).id
    obtain ⟨hb0, hb⟩ := (hk.board hroom (mem_shown.mp hb).1).id
    rw [← wide_cut32 ha0 ha, ← wide_cut32 hb0 hb]
    exact congrArg wide hab
  exact List.inj_on_of_nodup_map hids (mem_shown.mp ha).1 (mem_shown.mp hb).1 hid

section Lists

variable {α β : Type} {f : α → β}

/-- What is mapped to a permutation of some entries is a permutation of what they come from. -/
theorem exists_perm_of_map {L : List α} {M : List β} (h : M.Perm (L.map f)) :
    ∃ L' : List α, L'.Perm L ∧ L'.map f = M := by
  obtain ⟨L', rfl, hperm⟩ := (congrFun₂ (List.eq_map_comp_perm f) M L).mpr h
  exact ⟨L', hperm, rfl⟩

theorem eq_of_map_eq {L L' : List α} (hperm : L'.Perm L) (hnodup : (L.map f).Nodup)
    (h : L'.map f = L.map f) : L' = L := by
  refine List.ext_getElem hperm.length_eq fun i h1 h2 => ?_
  have hmap : f L'[i] = f L[i] := by
    have hget := List.getElem_of_eq h (i := i) (by simpa using h1)
    simpa using hget
  exact List.inj_on_of_nodup_map hnodup (hperm.mem_iff.mp (List.getElem_mem h1))
    (List.getElem_mem h2) hmap

end Lists

namespace Session

variable {w : Session} {i : Nat} {k : Client} {owner : UserId} {L : List (Int × Int × Cell)}

theorem Steady.list (hw : w.Steady) (hi : w.clients i = some k)
    (hroom : w.tables.lastDashboard < 4294967296) (owner : UserId) :
    (w.step ⟨i, .clear, .ask (.listDashboards owner)⟩).1 =
      .asked (.ok (.dashboards ((w.tables.shown owner).map (·.dashboard owner)))) := by
  obtain ⟨-, hanswer, -, -⟩ := hw.ask hi (.listDashboards owner)
  have hlist := listDashboards_readable (s := .clear) (c := ⟨w.tables, {}, k.changed⟩) rfl
    hw.tables hroom owner
  rw [hanswer, Request.run]
  exact congrArg Answer.asked (Operation.map_yields.mpr ⟨_, ⟨hlist, rfl⟩, rfl⟩).1

/-- What moves an entry of the list of numbers moves the dashboard that is shown there. -/
theorem Steady.move (hw : w.Steady) (hi : w.clients i = some k)
    (hroom : w.tables.lastDashboard < 4294967296) (hshown : w.tables.shown owner = laid L)
    {id : UInt32} {d : Direction} {swapped : List UInt32}
    (h : moved? (L.map shortId) id d = some swapped) :
    (w.step ⟨i, .clear, .ask (.moveDashboard owner id d)⟩).1 = .asked (.ok (.flag true)) ∧
      ∃ L', L'.Perm L ∧ L'.map shortId = swapped ∧
        (w.step ⟨i, .clear, .ask (.moveDashboard owner id d)⟩).2.tables.shown owner = laid L' := by
  obtain ⟨hc, hanswer, htables, -⟩ := hw.ask hi (.moveDashboard owner id d)
  have hnumbered := hw.tables.ordered.numbered hw.tables.sound.boards_eq
  have hperm := Tables.shown_perm w.tables owner
  have hfits : ∀ r ∈ w.tables.boardsOf owner, 0 ≤ r.id ∧ r.id < 4294967296 := fun r hr =>
    (hw.tables.board hroom (List.mem_filter.mp hr).1).id
  have hids : (w.tables.shown owner).map (fun r => cut32 r.id) = L.map shortId := by
    rw [hshown, ← congrArg (List.map shortId) (laid_identity (L := L)), List.map_map]
    rfl
  -- the rows in their new order
  have hswapped : swapped.Perm ((w.tables.shown owner).map fun r => cut32 r.id) := by
    obtain ⟨j, -, hswap⟩ := Option.bind_eq_some_iff.mp h
    exact hids ▸ swapAdjacent?_perm hswap
  obtain ⟨rows, hrows, hnumbers⟩ := exists_perm_of_map hswapped
  have hplaces : rows.map (·.id) = swapped.map wide := by
    rw [← hnumbers, List.map_map]
    refine List.map_congr_left fun r hr => ?_
    obtain ⟨h0, hlt⟩ := hfits r ((hrows.trans hperm).mem_iff.mp hr)
    exact (wide_cut32 h0 hlt).symm
  have hfew : rows.length ≤ 2147483648 := by
    rw [hrows.length_eq]
    exact hw.tables.few_shown owner
  have houtcome := moveDashboard_outcome (hc.tables.mem_present _) owner id d
  have hordered : w.tables.orderedIds owner = .ok (L.map shortId) :=
    hids ▸ Tables.orderedIds_eq (hw.tables.sound.mem_present _) hfits
  unfold moved? at h
  simp only [hordered, h] at houtcome
  obtain ⟨hmoved, hleft⟩ := Prod.mk.inj houtcome
  refine ⟨?_, rows.map (·.identity), ?_, ?_, ?_⟩
  · rw [hanswer, Request.run]
    exact congrArg Answer.asked (Operation.map_yields.mpr ⟨_, ⟨hmoved, rfl⟩, rfl⟩).1
  · rw [hshown] at hrows
    exact laid_identity (L := L) ▸ hrows.map (·.identity)
  · rw [← hnumbers, List.map_map]
    rfl
  · rw [htables, Request.run, Operation.map_tables, hleft]
    exact Tables.shown_placed hnumbered.ids (hrows.trans hperm) hplaces hfew

/-- The steps that ask a store for some moves. -/
def asks (i : Nat) (owner : UserId) (moves : List (UInt32 × Direction)) : List Step :=
  moves.map fun m => ⟨i, .clear, .ask (.moveDashboard owner m.1 m.2)⟩

/-- What brings the list of numbers into an order brings what is shown into this order. -/
theorem Steady.moveAll (hw : w.Steady) (hi : w.clients i = some k)
    (hroom : w.tables.lastDashboard < 4294967296) (hshown : w.tables.shown owner = laid L)
    (hnodup : (L.map shortId).Nodup) {target : List (Int × Int × Cell)} (hperm : target.Perm L)
    {moves : List (UInt32 × Direction)}
    (h : movedAll? (L.map shortId) moves = some (target.map shortId)) :
    (w.run (asks i owner moves)).1 = List.replicate moves.length (.asked (.ok (.flag true))) ∧
      (w.run (asks i owner moves)).2.Steady ∧
      (∃ k', (w.run (asks i owner moves)).2.clients i = some k') ∧
      (w.run (asks i owner moves)).2.tables.lastDashboard = w.tables.lastDashboard ∧
      (w.run (asks i owner moves)).2.tables.shown owner = laid target := by
  induction moves generalizing w k L with
  | nil =>
    obtain rfl := eq_of_map_eq hperm hnodup (Option.some.inj h).symm
    exact ⟨rfl, hw, ⟨k, hi⟩, rfl, hshown⟩
  | cons m moves ih =>
    obtain ⟨id, d⟩ := m
    obtain ⟨swapped, hfirst, hrest⟩ := Option.bind_eq_some_iff.mp h
    obtain ⟨hanswer, L', hL', rfl, hshown'⟩ := hw.move hi hroom hshown hfirst
    obtain ⟨-, -, htables, k', hi'⟩ := hw.ask hi (.moveDashboard owner id d)
    have hlast : (w.step ⟨i, .clear, .ask (.moveDashboard owner id d)⟩).2.tables.lastDashboard =
        w.tables.lastDashboard := by
      rw [htables]
      exact lastDashboard_run_eq _ _ _ _ fun _ => Request.noConfusion
    have hsteady : (w.step ⟨i, .clear, .ask (.moveDashboard owner id d)⟩).2.Steady :=
      hw.step (List.forall_mem_nil _)
    have hnodup' : (L'.map shortId).Nodup := (hL'.map shortId).nodup_iff.mpr hnodup
    obtain ⟨hanswers, hsteady', hopen, hlast', htarget⟩ :=
      ih hsteady hi' (hlast.symm ▸ hroom) hshown' hnodup' (hperm.trans hL'.symm) hrest
    exact ⟨congrArg₂ List.cons hanswer hanswers, hsteady', hopen, hlast'.trans hlast, htarget⟩

end Session

/-- Whatever has been asked of a database and whatever has come of it: the dashboards of an owner
can be brought into any order by one-step moves, at most `n (n - 1) / 2` of them, all of which are
granted. Then they are listed in this order, each with its index as position, and otherwise as they
were. -/
theorem moves_reach_every_layout {past : List Step} (hpast : ∀ st ∈ past, st.Fair) {w : Session}
    (hw : ((Session.start .fresh).run past).2 = w) (hroom : w.tables.lastDashboard < 4294967296)
    {i : Nat} {k : Client} (hi : w.clients i = some k) (owner : UserId) :
    ∃ listed : List Dashboard, listed.length ≤ 2147483648 ∧
      (w.step ⟨i, .clear, .ask (.listDashboards owner)⟩).1 =
        .asked (.ok (.dashboards listed)) ∧
      ∀ target : List Dashboard, target.Perm listed → ∃ moves : List (UInt32 × Direction),
        moves.length ≤ listed.length * (listed.length - 1) / 2 ∧
        (w.run (Session.asks i owner moves)).1 =
          List.replicate moves.length (.asked (.ok (.flag true))) ∧
        ((w.run (Session.asks i owner moves)).2.step ⟨i, .clear, .ask (.listDashboards owner)⟩).1 =
          .asked (.ok (.dashboards
            (target.mapIdx fun n d => { d with order := Int32.ofNat n }))) := by
  have hsteady : w.Steady := hw ▸ Session.steady_start.run hpast
  have hshown := hsteady.tables.shown_laid owner
  have hnodup := hsteady.tables.nodup_shortIds hroom owner
  refine ⟨(w.tables.shown owner).map (·.dashboard owner), ?_, hsteady.list hi hroom owner, ?_⟩
  · rw [List.length_map]
    exact hsteady.tables.few_shown owner
  intro target htarget
  obtain ⟨rows, hrows, rfl⟩ := exists_perm_of_map htarget
  have hrows' := (hrows.map (·.identity)).map shortId
  obtain ⟨moves, hlength, -, hmoves⟩ := exists_moves hnodup hrows'
  obtain ⟨hanswers, hsteady', ⟨k', hi'⟩, hlast, hlaid⟩ :=
    hsteady.moveAll hi hroom hshown hnodup (hrows.map (·.identity)) hmoves
  refine ⟨moves, ?_, hanswers, ?_⟩
  · simp only [List.length_map] at hlength ⊢
    omega
  · rw [hsteady'.list hi' (hlast.symm ▸ hroom) owner, hlaid]
    refine congrArg (fun ds => Answer.asked (.ok (.dashboards ds))) ?_
    refine List.ext_getElem (by simp [length_laid]) fun n h1 h2 => ?_
    have hn : n < (rows.map (·.identity)).length := by simpa using h2
    rw [List.getElem_map, getElem_laid _ hn, List.getElem_map, List.getElem_mapIdx,
      List.getElem_map]
    rfl

/-- Three dashboards are put in the opposite order. -/
theorem moves_reach_opposite_order :
    let past : List Step := [⟨0, .clear, .join .sqlite⟩, ⟨0, .clear, .ask (.createUser "u")⟩,
      ⟨0, .clear, .ask (.createDashboard (.draft 1 "x"))⟩,
      ⟨0, .clear, .ask (.createDashboard (.draft 1 "y"))⟩,
      ⟨0, .clear, .ask (.createDashboard (.draft 1 "z"))⟩]
    let w := ((Session.start .fresh).run past).2
    ∃ moves : List (UInt32 × Direction), moves.length ≤ 3 ∧
      (w.run (Session.asks 0 1 moves)).1 =
        List.replicate moves.length (.asked (.ok (.flag true))) ∧
      ((w.run (Session.asks 0 1 moves)).2.step ⟨0, .clear, .ask (.listDashboards 1)⟩).1 =
        .asked (.ok (.dashboards [⟨3, 1, "z", 0⟩, ⟨2, 1, "y", 1⟩, ⟨1, 1, "x", 2⟩])) := by
  intro past w
  have hpast : ∀ st ∈ past, st.Fair := by decide
  have hopen : (w.clients 0).isSome = true := by decide +kernel
  obtain ⟨k, hi⟩ := Option.isSome_iff_exists.mp hopen
  have hroom : w.tables.lastDashboard < 4294967296 := by decide +kernel
  obtain ⟨listed, -, hlisted, hreach⟩ := moves_reach_every_layout hpast rfl hroom hi 1
  have hboards : w.tables.boardsOf 1 = [⟨1, 1, .text "x", .integer 0⟩,
      ⟨2, 1, .text "y", .integer 1⟩, ⟨3, 1, .text "z", .integer 2⟩] := by
    decide +kernel
  have hthree : (w.tables.shown 1).map (·.dashboard 1) =
      [⟨1, 1, "x", 0⟩, ⟨2, 1, "y", 1⟩, ⟨3, 1, "z", 2⟩] := by
    rw [Tables.shown, hboards, List.mergeSort_of_pairwise (by decide)]
    rfl
  rw [(Session.steady_start.run hpast).list hi hroom 1, hthree] at hlisted
  cases hlisted
  exact hreach [⟨3, 1, "z", 2⟩, ⟨2, 1, "y", 1⟩, ⟨1, 1, "x", 0⟩] (by decide)

end Pinboard.Store
