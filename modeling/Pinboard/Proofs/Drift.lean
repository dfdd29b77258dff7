import Pinboard.Proofs.Layout
import Pinboard.Proofs.Neighbours

/-!
# Moves in any layout

The positions of an owner's dashboards can have drifted: there can be gaps between them, several
dashboards can share one, and some can be negative. A move acts on the order that the dashboards are
shown in, by position and then by number, whatever the positions are: it exchanges two neighbours in
this order and writes the places 0, 1, 2, … to all of them.
-/

namespace Pinboard

/-! ## Moves in a list -/

section Lists

variable {α : Type} {items swapped : List α} {d : Direction} [BEq α] [LawfulBEq α] {a : α}

/-- In a list without repetitions, an entry is moved from the place where it is to one beside it. -/
theorem moved?_eq_some (hitems : items.Nodup) : moved? items a d = some swapped ↔
    ∃ i j, items[i]? = some a ∧ d.Step i j ∧ j < items.length ∧
      exchange items i j = some swapped := by
  -- The first place with the entry is the only one.
  have hfind : ∀ i, items.findIdx? (· == a) = some i ↔ items[i]? = some a := by
    intro i
    rw [List.findIdx?_eq_some_iff_getElem, List.getElem?_eq_some_iff]
    constructor
    · rintro ⟨hi, hbeq, -⟩
      exact ⟨hi, eq_of_beq hbeq⟩
    · rintro ⟨hi, rfl⟩
      refine ⟨hi, beq_self_eq_true _, fun k hk hbeq => ?_⟩
      have := (hitems.getElem_inj_iff).mp (eq_of_beq hbeq)
      omega
  unfold moved? swapAdjacent?
  simp only [Option.bind_eq_bind, Option.bind_eq_some_iff, hfind, neighbour?_eq_some]
  constructor
  · rintro ⟨i, hi, j, ⟨hstep, -, hj⟩, hswap⟩
    exact ⟨i, j, hi, hstep, hj, hswap⟩
  · rintro ⟨i, j, hi, hstep, hj, hswap⟩
    exact ⟨i, hi, j, ⟨hstep, (List.getElem?_eq_some_iff.mp hi).1, hj⟩, hswap⟩

end Lists

end Pinboard

namespace Pinboard.Store

/-! ## The order of an owner's dashboards -/

namespace Tables

/-- An owner's dashboards stand in a table that they can be moved in. Their positions are whole
numbers, no matter which. -/
structure Movable (t : Tables) (owner : UserId) : Prop where
  /-- There is a table of dashboards. -/
  present : .dashboards ∈ t.present
  /-- No two dashboards share a number. -/
  ids : (t.boards.map (·.id)).Nodup
  /-- The owner's numbers have 32 bits. -/
  fits : ∀ r ∈ t.boardsOf owner, 0 ≤ r.id ∧ r.id < 4294967296
  /-- The owner's positions are whole numbers. -/
  order : ∀ r ∈ t.boardsOf owner, ∃ n, r.order = .integer n
  /-- The owner has no more dashboards than there are positions. -/
  few : (t.boardsOf owner).length ≤ 2147483648

/-- A list of an owner's dashboards, each once, by position and then by number. -/
structure InOrder (t : Tables) (owner : UserId) (rows : List DashboardRow) : Prop where
  /-- All of them are in the list, and nothing else. -/
  perm : rows.Perm (t.boardsOf owner)
  /-- Each comes before those that rank behind it. -/
  sorted : rows.Pairwise (·.rank < ·.rank)

variable {t : Tables} {owner : UserId}

theorem inOrder_shown (hids : (t.boards.map (·.id)).Nodup)
    (horder : ∀ r ∈ t.boardsOf owner, r.order = .integer r.order.place) :
    t.InOrder owner (t.shown owner) := by
  have hperm := shown_perm t owner
  have hdistinct : (t.shown owner).Pairwise (·.id ≠ ·.id) :=
    List.pairwise_map.mp (((hperm.map _).nodup_iff).mpr (boardsOf_ids hids))
  have hsorted : (t.shown owner).Pairwise (·.rank ≤ ·.rank) := by
    rw [shown, mergeSort_shownBefore horder]
    exact pairwise_mergeSort_le DashboardRow.rank _
  refine ⟨hperm, (hsorted.and hdistinct).imp ?_⟩
  intro a b h
  exact lt_of_le_of_ne h.1 fun hrank => h.2 (Prod.mk.inj (toLex_inj.mp hrank)).2

/-- Sorted by position and number, the dashboards of an owner stand in one order. -/
theorem InOrder.unique {rows rows' : List DashboardRow} (h : t.InOrder owner rows)
    (h' : t.InOrder owner rows') : rows = rows' :=
  List.Perm.eq_of_pairwise (fun _ _ _ _ hab hba => absurd hab (lt_asymm hba)) h.sorted h'.sorted
    (h.perm.trans h'.perm.symm)

theorem place_of_integer {r : DashboardRow} (h : ∃ n, r.order = .integer n) :
    r.order = .integer r.order.place := by
  obtain ⟨n, hn⟩ := h
  rw [hn]
  rfl

theorem Movable.place (h : t.Movable owner) :
    ∀ r ∈ t.boardsOf owner, r.order = .integer r.order.place :=
  fun r hr => place_of_integer (h.order r hr)

theorem Movable.inOrder (h : t.Movable owner) : t.InOrder owner (t.shown owner) :=
  inOrder_shown h.ids h.place

theorem movable_iff : t.Movable owner ↔
    .dashboards ∈ t.present ∧ (t.boards.map (·.id)).Nodup ∧
      (∀ r ∈ t.boardsOf owner, 0 ≤ r.id ∧ r.id < 4294967296) ∧
      (∀ r ∈ t.boardsOf owner, r.order = .integer r.order.place) ∧
      (t.boardsOf owner).length ≤ 2147483648 :=
  ⟨fun h => ⟨h.present, h.ids, h.fits, h.place, h.few⟩,
    fun ⟨hpresent, hids, hfits, horder, hfew⟩ =>
      ⟨hpresent, hids, hfits, fun r hr => ⟨_, horder r hr⟩, hfew⟩⟩

instance (t : Tables) (owner : UserId) : Decidable (t.Movable owner) :=
  decidable_of_iff _ movable_iff.symm

theorem inOrder_iff {rows : List DashboardRow} : t.InOrder owner rows ↔
    rows.Perm (t.boardsOf owner) ∧ rows.Pairwise fun a b =>
      a.order.place < b.order.place ∨ a.order.place = b.order.place ∧ a.id < b.id := by
  have hrank : (fun a b : DashboardRow => a.rank < b.rank) = fun a b =>
      a.order.place < b.order.place ∨ a.order.place = b.order.place ∧ a.id < b.id := by
    funext a b
    exact propext Prod.Lex.toLex_lt_toLex
  rw [← hrank]
  exact ⟨fun h => ⟨h.perm, h.sorted⟩, fun h => ⟨h.1, h.2⟩⟩

instance (t : Tables) (owner : UserId) (rows : List DashboardRow) :
    Decidable (t.InOrder owner rows) :=
  decidable_of_iff _ inOrder_iff.symm

end Tables

/-! ## Written places -/

/-- The rows with their places in the list as their positions. -/
def atPlaces (rows : List DashboardRow) : List DashboardRow :=
  rows.mapIdx fun i r => { r with order := .integer i }

/-- The dashboards of an owner have become some rows, at the places 0, 1, 2, and so on in the order
of the rows, and nothing else has changed. -/
structure Arranged (t t' : Tables) (owner : UserId) (rows : List DashboardRow) : Prop where
  /-- No other table has changed. -/
  boards : ∃ boards, t' = { t with dashboards := some boards }
  /-- The dashboards of other owners stay as they are. -/
  others : t'.boards.filter (·.owner != wide owner) = t.boards.filter (·.owner != wide owner)
  /-- The owner has the rows at their places. -/
  own : t'.InOrder owner (atPlaces rows)

theorem laid_identities (rows : List DashboardRow) :
    laid (rows.map (·.identity)) = atPlaces rows := by
  refine List.ext_getElem? fun k => ?_
  rw [laid, atPlaces, List.getElem?_mapIdx, List.getElem?_mapIdx, List.getElem?_map,
    Option.map_map]
  rfl

section Written

variable {t : Tables} {owner : UserId}

/-- Writing places for one owner leaves the dashboards of the others as they are. -/
theorem placed_others {ids : List UInt32} {i : Nat} {rows : List DashboardRow} (hids : ids.Nodup) :
    (placed owner i ids rows).filter (·.owner != wide owner) =
      rows.filter (·.owner != wide owner) := by
  have hpred : (fun r : DashboardRow => r.owner != wide owner) ∘
      placedRow owner i (ids.map wide) = (·.owner != wide owner) := by
    funext r
    simp [placedRow_owner]
  rw [placed_eq_map hids, List.filter_map, hpred]
  refine (List.map_congr_left fun r hr => ?_).trans (List.map_id _)
  have howner : r.owner ≠ wide owner := by simpa using (List.mem_filter.mp hr).2
  simp [placedRow, howner]

/-- Where the numbers of an owner's rows in some order are written to them, the rows stand in this
order. -/
theorem arranged_placed (h : t.Movable owner) {rows : List DashboardRow} {ids : List UInt32}
    (hperm : rows.Perm (t.boardsOf owner)) (hplaces : rows.map (·.id) = ids.map wide) :
    Arranged t { t with dashboards := some (placed owner 0 ids t.boards) } owner rows := by
  have hnodup : ids.Nodup :=
    List.Nodup.of_map wide (hplaces ▸ (hperm.map _).nodup_iff.mpr (Tables.boardsOf_ids h.ids))
  have hshown := Tables.shown_placed h.ids hperm hplaces (hperm.length_eq ▸ h.few)
  refine ⟨⟨_, rfl⟩, placed_others hnodup, ?_⟩
  -- The positions written are whole numbers, so that the rows are shown in the order of them.
  rw [← laid_identities, ← hshown]
  refine Tables.inOrder_shown ?_ fun r hr => ?_
  · show ((placed owner 0 ids t.boards).map (·.id)).Nodup
    rw [placed_ids hnodup]
    exact h.ids
  · rw [← List.Perm.mem_iff (Tables.shown_perm _ owner), hshown] at hr
    exact order_of_mem_laid hr

end Written

/-! ## A move -/

/-- A dashboard stands in a list, and a step in a direction leads from its place to another in the
list. -/
def Neighbours (rows : List DashboardRow) (id : UInt32) (d : Direction) (i j : Nat) : Prop :=
  rows[i]?.map (·.id) = some (wide id) ∧ d.Step i j ∧ j < rows.length

/-- Two places in the order of an owner's dashboards are exchanged, each dashboard gets the place
where it then stands as its position, and nothing else changes. -/
structure Exchanged (t t' : Tables) (owner : UserId) (rows : List DashboardRow) (i j : Nat) :
    Prop where
  /-- No other table has changed. -/
  boards : ∃ boards, t' = { t with dashboards := some boards }
  /-- The dashboards of other owners stay as they are. -/
  others : t'.boards.filter (·.owner != wide owner) = t.boards.filter (·.owner != wide owner)
  /-- The owner's dashboards stand in the new order, at the places 0, 1, 2, and so on. -/
  own : ∃ moved, t'.InOrder owner moved ∧
    ∀ k : Nat, moved[k]? = rows[Equiv.swap i j k]?.map fun r => { r with order := .integer k }

section Move

variable {t : Tables} {owner : UserId}

/-- Where the numbers of the rows in a new order are written to them, the rows stand in this
order. -/
theorem exchanged_placed (h : t.Movable owner) {rows : List DashboardRow} {ids : List UInt32}
    {i j : Nat} (hrows : exchange (t.shown owner) i j = some rows)
    (hids : rows.map (·.id) = ids.map wide) :
    Exchanged t { t with dashboards := some (placed owner 0 ids t.boards) } owner (t.shown owner)
      i j := by
  have hperm : rows.Perm (t.boardsOf owner) :=
    (exchange_perm hrows).trans (Tables.shown_perm t owner)
  have harranged := arranged_placed h hperm hids
  refine ⟨harranged.boards, harranged.others, _, harranged.own, fun k => ?_⟩
  rw [← getElem?_exchange hrows]
  exact List.getElem?_mapIdx

/-! ## The numbers that a move looks at -/

/-- The numbers of an owner's dashboards, as a move reads them. -/
def Tables.shownIds (t : Tables) (owner : UserId) : List UInt32 :=
  (t.shown owner).map fun r => cut32 r.id

namespace Tables.Movable

variable {id : UInt32} {d : Direction} {i j : Nat} (h : t.Movable owner)
include h

theorem map_id : (t.shown owner).map (·.id) = (t.shownIds owner).map wide := by
  rw [shownIds, List.map_map]
  refine List.map_congr_left fun r hr => ?_
  obtain ⟨h0, hlt⟩ := h.fits r ((shown_perm t owner).mem_iff.mp hr)
  exact (wide_cut32 h0 hlt).symm

theorem nodup_shownIds : (t.shownIds owner).Nodup := by
  have hwide : ((t.shownIds owner).map wide).Nodup :=
    h.map_id ▸ ((shown_perm t owner).map _).nodup_iff.mpr (boardsOf_ids h.ids)
  exact hwide.of_map

theorem neighbours_iff : Neighbours (t.shown owner) id d i j ↔
    (t.shownIds owner)[i]? = some id ∧ d.Step i j ∧ j < (t.shownIds owner).length := by
  have hlength : (t.shownIds owner).length = (t.shown owner).length := List.length_map _
  unfold Neighbours
  rw [← List.getElem?_map, h.map_id, List.getElem?_map, Option.map_eq_some_iff, hlength]
  refine and_congr_left fun _ => ?_
  exact ⟨fun ⟨a, ha, haw⟩ => wide_injective haw ▸ ha, fun ha => ⟨id, ha, rfl⟩⟩

theorem moved?_eq_some {swapped : List UInt32} : moved? (t.shownIds owner) id d = some swapped ↔
    ∃ i j, Neighbours (t.shown owner) id d i j ∧
      exchange (t.shownIds owner) i j = some swapped := by
  rw [Pinboard.moved?_eq_some h.nodup_shownIds]
  simp only [h.neighbours_iff, and_assoc]

/-- Where a dashboard has a neighbour, the two change places. -/
theorem exists_moved (hij : Neighbours (t.shown owner) id d i j) : ∃ swapped,
    moved? (t.shownIds owner) id d = some swapped ∧
      exchange (t.shownIds owner) i j = some swapped := by
  obtain ⟨hi, -, hj⟩ := h.neighbours_iff.mp hij
  obtain ⟨swapped, hswapped⟩ := exists_exchange (List.getElem?_eq_some_iff.mp hi).1 hj
  exact ⟨swapped, h.moved?_eq_some.mpr ⟨i, j, hij, hswapped⟩, hswapped⟩

end Tables.Movable

/-- What comes of a move, whatever whole numbers the positions are. -/
theorem moveDashboard_moved {c : Connection} (h : c.tables.Movable owner) (id : UInt32)
    (d : Direction) : (moveDashboard .clear owner id d).outcome c =
      match moved? (c.tables.shownIds owner) id d with
      | none => (.ok false, c.tables)
      | some swapped => (.ok true,
          { c.tables with dashboards := some (placed owner 0 swapped c.tables.boards) }) := by
  rw [moveDashboard_outcome h.present, Tables.orderedIds_eq h.present h.fits]
  rfl

/-- What a move does to the dashboards of an owner, whatever whole numbers their positions are. It
is done exactly if the dashboard is one of the owner's and has a neighbour on that side, in the
order by position and number; otherwise nothing changes. -/
theorem move_in_any_layout {c : Connection} (h : c.tables.Movable owner) :
    ∃ rows, c.tables.InOrder owner rows ∧ ∀ (id : UInt32) (d : Direction),
      ((moveDashboard .clear owner id d c).1 = .ok true ↔ ∃ i j, Neighbours rows id d i j) ∧
      (∀ i j, Neighbours rows id d i j →
        Exchanged c.tables (moveDashboard .clear owner id d c).2.tables owner rows i j) ∧
      ((¬ ∃ i j, Neighbours rows id d i j) →
        (moveDashboard .clear owner id d c).1 = .ok false ∧
          (moveDashboard .clear owner id d c).2.tables = c.tables) := by
  refine ⟨_, h.inOrder, fun id d => ?_⟩
  have houtcome := moveDashboard_moved h id d
  cases hmove : moved? (c.tables.shownIds owner) id d with
  | none =>
    have hnone : ¬ ∃ i j, Neighbours (c.tables.shown owner) id d i j := by
      rintro ⟨i, j, hij⟩
      obtain ⟨swapped, hswapped, -⟩ := h.exists_moved hij
      rw [hswapped] at hmove
      cases hmove
    rw [hmove] at houtcome
    obtain ⟨hanswer, hleft⟩ := Prod.mk.inj houtcome
    refine ⟨?_, fun i j hij => absurd ⟨i, j, hij⟩ hnone, fun _ => ⟨hanswer, hleft⟩⟩
    rw [hanswer]
    exact ⟨fun hfalse => (nomatch hfalse), fun hij => absurd hij hnone⟩
  | some swapped =>
    obtain ⟨i, j, hij, -⟩ := h.moved?_eq_some.mp hmove
    rw [hmove] at houtcome
    obtain ⟨hanswer, hleft⟩ := Prod.mk.inj houtcome
    refine ⟨⟨fun _ => ⟨i, j, hij⟩, fun _ => hanswer⟩, fun i j hij => ?_,
      fun hnone => absurd ⟨i, j, hij⟩ hnone⟩
    -- Whatever the neighbours are, exchanging them is what the move has found.
    obtain ⟨swapped', hmove', hswapped⟩ := h.exists_moved hij
    obtain rfl : swapped = swapped' := Option.some.inj (hmove.symm.trans hmove')
    obtain ⟨rows, hrows, hnumbers⟩ := exists_exchange_of_map h.map_id hswapped
    rw [hleft]
    exact exchanged_placed h hrows hnumbers

/-- Of four dashboards, one at a negative position, two that share one and one at the greatest, the
second of the two that share a position goes up. -/
theorem move_in_drifted_layout :
    let t : Tables := { Tables.fresh with
      users := some [⟨1, .text "u"⟩, ⟨2, .text "v"⟩]
      dashboards := some [⟨1, 1, .text "a", .integer 7⟩, ⟨2, 1, .text "b", .integer 7⟩,
        ⟨3, 1, .text "c", .integer (-5)⟩, ⟨4, 2, .text "d", .integer 7⟩,
        ⟨9, 1, .text "e", .integer 9223372036854775807⟩] }
    let c : Connection := ⟨t, {}, 0⟩
    t.Movable 1 ∧ (moveDashboard .clear 1 2 .up c).1 = .ok true ∧
      ∃ moved, (moveDashboard .clear 1 2 .up c).2.tables.InOrder 1 moved ∧
        moved[0]? = some ⟨3, 1, .text "c", .integer 0⟩ ∧
        moved[1]? = some ⟨2, 1, .text "b", .integer 1⟩ ∧
        moved[2]? = some ⟨1, 1, .text "a", .integer 2⟩ ∧
        moved[3]? = some ⟨9, 1, .text "e", .integer 3⟩ ∧ moved[4]? = none := by
  intro t c
  have hboards : t.boardsOf 1 = [⟨1, 1, .text "a", .integer 7⟩, ⟨2, 1, .text "b", .integer 7⟩,
      ⟨3, 1, .text "c", .integer (-5)⟩, ⟨9, 1, .text "e", .integer 9223372036854775807⟩] := by
    decide
  have ht : t.Movable 1 := by
    refine ⟨by decide, by decide, ?_, ?_, ?_⟩ <;> rw [hboards]
    · decide
    · simp
    · decide
  have horder : t.InOrder 1 [⟨3, 1, .text "c", .integer (-5)⟩, ⟨1, 1, .text "a", .integer 7⟩,
      ⟨2, 1, .text "b", .integer 7⟩, ⟨9, 1, .text "e", .integer 9223372036854775807⟩] := by
    refine ⟨?_, ?_⟩
    · rw [hboards]
      decide
    · simp [DashboardRow.rank, Cell.place, Prod.Lex.toLex_lt_toLex]
  obtain ⟨rows, hrows, hmove⟩ := move_in_any_layout (c := c) ht
  have hlist := hrows.unique horder
  obtain ⟨hanswer, hexchanged, -⟩ := hmove 2 .up
  have hij : Neighbours rows 2 .up 2 1 := by
    rw [hlist]
    exact ⟨rfl, rfl, by decide⟩
  obtain ⟨-, -, moved, hmoved, hget⟩ := hexchanged 2 1 hij
  refine ⟨ht, hanswer.mpr ⟨2, 1, hij⟩, moved, hmoved, ?_⟩
  simp only [hget, hlist]
  decide

end Move

end Pinboard.Store
