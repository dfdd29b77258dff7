import Pinboard.Proofs.Drift

/-!
# Removing a dashboard

When a dashboard goes, the others of its owner close the gap. Whatever whole numbers their positions
were, they stay in the order that they were shown in and get the places 0, 1, 2, … along it. A
dashboard that is not there, or that belongs to another owner, is not found.
-/

namespace Pinboard.Store

namespace Tables

/-- An owner has a dashboard with a number. -/
def HasBoard (t : Tables) (owner : UserId) (id : UInt32) : Prop :=
  ∃ r ∈ t.boards, r.id = wide id ∧ r.owner = wide owner

instance (t : Tables) (owner : UserId) (id : UInt32) : Decidable (t.HasBoard owner id) :=
  inferInstanceAs (Decidable (∃ r ∈ t.boards, r.id = wide id ∧ r.owner = wide owner))

/-- The tables but for a dashboard of an owner. -/
def withoutBoard (t : Tables) (owner : UserId) (id : UInt32) : Tables :=
  { t with dashboards := some (t.boardsWithout owner id) }

section Without

variable {t : Tables} {owner : UserId}

theorem boardsWithout_others (t : Tables) (owner : UserId) (id : UInt32) :
    (t.withoutBoard owner id).boards.filter (·.owner != wide owner) =
      t.boards.filter (·.owner != wide owner) := by
  show (t.boardsWithout owner id).filter _ = _
  rw [boardsWithout, List.filter_filter]
  refine List.filter_congr fun r _ => ?_
  by_cases howner : r.owner = wide owner <;> simp [howner]

/-- The others stay in order. -/
theorem InOrder.withoutBoard {rows : List DashboardRow} (h : t.InOrder owner rows) (id : UInt32) :
    (t.withoutBoard owner id).InOrder owner (rows.filter (·.id != wide id)) := by
  have hleft : (t.withoutBoard owner id).boardsOf owner =
      (t.boardsOf owner).filter (·.id != wide id) := t.boardsOf_without owner id
  refine ⟨?_, h.sorted.filter _⟩
  rw [hleft]
  exact h.perm.filter _

theorem present_withoutBoard (h : .dashboards ∈ t.present) (id : UInt32) :
    (t.withoutBoard owner id).present = t.present :=
  present_withBoards h (t.boardsWithout owner id) t.lastDashboard

theorem Movable.withoutBoard (h : t.Movable owner) (id : UInt32) :
    (t.withoutBoard owner id).Movable owner := by
  have hsub : (t.boardsWithout owner id).Sublist t.boards := List.filter_sublist
  have hown : ((t.withoutBoard owner id).boardsOf owner).Sublist (t.boardsOf owner) :=
    hsub.filter _
  exact ⟨present_withoutBoard h.present id ▸ h.present, h.ids.sublist (hsub.map _),
    fun r hr => h.fits r (hown.subset hr), fun r hr => h.order r (hown.subset hr),
    Nat.le_trans hown.length_le h.few⟩

theorem Movable.shown_without (h : t.Movable owner) (id : UInt32) :
    (t.withoutBoard owner id).shown owner = (t.shown owner).filter (·.id != wide id) :=
  (h.withoutBoard id).inOrder.unique (h.inOrder.withoutBoard id)

theorem any_iff_hasBoard {id : UInt32} :
    (t.boards.any fun r => r.id == wide id && r.owner == wide owner) = true ↔
      t.HasBoard owner id := by
  simp only [HasBoard, List.any_eq_true, Bool.and_eq_true, beq_iff_eq]

end Without

end Tables

section Removal

variable {c : Connection} {owner : UserId}

/-- The numbers of an owner's dashboards can be told exactly if all of them have 32 bits. -/
theorem Tables.orderedIds_iff {t : Tables} (h : .dashboards ∈ t.present) :
    (∃ ids, t.orderedIds owner = .ok ids) ↔
      ∀ r ∈ t.boardsOf owner, 0 ≤ r.id ∧ r.id < 4294967296 := by
  constructor
  · rintro ⟨ids, hids⟩ r hr
    have hmem : r.id ∈ ids.map wide :=
      (orderedIds_perm (Tables.boards_eq h) hids).mem_iff.mpr (List.mem_map_of_mem hr)
    obtain ⟨id, -, hid⟩ := List.mem_map.mp hmem
    rw [← hid]
    exact ⟨wide_nonneg id, wide_lt id⟩
  · intro hfits
    exact ⟨_, Tables.orderedIds_eq h hfits⟩

/-- A dashboard can be removed exactly if it is there and the numbers of the others have 32 bits. -/
theorem removeDashboard_granted_iff (hboards : .dashboards ∈ c.tables.present)
    (husers : .users ∈ c.tables.present) (hknown : ∀ f ∈ c.known.faults, f.strayColumn? = none)
    (id : UInt32) : (removeDashboard .clear owner id c).1 = .ok () ↔
      c.tables.HasBoard owner id ∧
        ∀ r ∈ (c.tables.withoutBoard owner id).boardsOf owner, 0 ≤ r.id ∧ r.id < 4294967296 := by
  have hleft : .dashboards ∈ (c.tables.withoutBoard owner id).present :=
    Tables.present_withoutBoard hboards id ▸ hboards
  have hanswer := congrArg Prod.fst (removeDashboard_outcome hboards husers hknown owner id)
  unfold Operation.outcome at hanswer
  rw [← Tables.orderedIds_iff hleft, hanswer]
  dsimp only
  by_cases hthere : c.tables.HasBoard owner id
  · rw [if_pos (Tables.any_iff_hasBoard.mpr hthere), Tables.withoutBoard]
    cases Tables.orderedIds _ owner with
    | error e => simp
    | ok ids => simp [hthere]
  · rw [if_neg (mt Tables.any_iff_hasBoard.mp hthere)]
    simp [hthere]

/-- What comes of removing a dashboard, whatever whole numbers the positions are. -/
theorem removeDashboard_removed (hc : c.Steady) (h : c.tables.Movable owner) (id : UInt32) :
    (removeDashboard .clear owner id).outcome c =
      if c.tables.HasBoard owner id then
        (.ok (), { c.tables with dashboards := some (placed owner 0
          ((c.tables.withoutBoard owner id).shownIds owner) (c.tables.boardsWithout owner id)) })
      else (.error (.dashboardMissing id), c.tables) := by
  have hleft := h.withoutBoard id
  have hids : Tables.orderedIds { c.tables with
      dashboards := some (c.tables.boardsWithout owner id) } owner =
        .ok ((c.tables.withoutBoard owner id).shownIds owner) :=
    Tables.orderedIds_eq hleft.present hleft.fits
  rw [removeDashboard_outcome (hc.tables _) (hc.tables _) hc.known]
  dsimp only
  rw [hids]
  by_cases hthere : c.tables.HasBoard owner id
  · rw [if_pos hthere, if_pos (Tables.any_iff_hasBoard.mpr hthere)]
  · rw [if_neg hthere, if_neg (mt Tables.any_iff_hasBoard.mp hthere)]

/-- What removing a dashboard does, whatever whole numbers the owner's positions are. If the owner
has the dashboard, it goes, and the others get the places 0, 1, 2, and so on in the order that they
were shown in. Otherwise it is not found, and nothing changes. -/
theorem removeDashboard_closes_gap (hc : c.Steady) (h : c.tables.Movable owner) :
    ∃ rows, c.tables.InOrder owner rows ∧ ∀ id : UInt32,
      (c.tables.HasBoard owner id →
        (removeDashboard .clear owner id c).1 = .ok () ∧
          Arranged c.tables (removeDashboard .clear owner id c).2.tables owner
            (rows.filter (·.id != wide id))) ∧
      (¬ c.tables.HasBoard owner id →
        (∃ r, (removeDashboard .clear owner id c).1 = .error r ∧ r.failure.kind = .notFound) ∧
          (removeDashboard .clear owner id c).2.tables = c.tables) := by
  refine ⟨_, h.inOrder, fun id => ?_⟩
  have houtcome := removeDashboard_removed hc h id
  by_cases hthere : c.tables.HasBoard owner id
  · rw [if_pos hthere] at houtcome
    obtain ⟨hanswer, hleft⟩ := Prod.mk.inj houtcome
    have hrest := h.withoutBoard id
    have hwritten : Arranged (c.tables.withoutBoard owner id)
        (removeDashboard .clear owner id c).2.tables owner
          ((c.tables.withoutBoard owner id).shown owner) := by
      rw [hleft]
      exact arranged_placed hrest (Tables.shown_perm _ owner) hrest.map_id
    -- other owners keep what they have in both steps
    refine ⟨fun _ => ⟨hanswer, ⟨_, hleft⟩, ?_, ?_⟩, fun hno => absurd hthere hno⟩
    · rw [hwritten.others, Tables.boardsWithout_others]
    · rw [← h.shown_without]
      exact hwritten.own
  · rw [if_neg hthere] at houtcome
    obtain ⟨hanswer, hleft⟩ := Prod.mk.inj houtcome
    exact ⟨fun hyes => absurd hyes hthere, fun _ => ⟨⟨_, hanswer, rfl⟩, hleft⟩⟩

/-- Of three dashboards that are shown at the positions -5, 7 and 7, the second is removed. The
dashboard of another owner is not found. -/
theorem removeDashboard_closes_gap_in_drifted_layout :
    let t : Tables := { Tables.fresh with
      users := some [⟨1, .text "u"⟩, ⟨2, .text "v"⟩]
      dashboards := some [⟨1, 1, .text "a", .integer 7⟩, ⟨2, 1, .text "b", .integer 7⟩,
        ⟨3, 2, .text "c", .integer 40⟩, ⟨4, 1, .text "d", .integer (-5)⟩] }
    let c : Connection := ⟨t, {}, 0⟩
    c.Steady ∧ t.Movable 1 ∧ (removeDashboard .clear 1 1 c).1 = .ok () ∧
      (removeDashboard .clear 1 1 c).2.tables.InOrder 1
        [⟨4, 1, .text "d", .integer 0⟩, ⟨2, 1, .text "b", .integer 1⟩] ∧
      (removeDashboard .clear 1 3 c).2.tables = t := by
  intro t c
  have ht : t.Movable 1 := by decide
  have horder : t.InOrder 1 [⟨4, 1, .text "d", .integer (-5)⟩, ⟨1, 1, .text "a", .integer 7⟩,
      ⟨2, 1, .text "b", .integer 7⟩] := by decide
  have hc : c.Steady := ⟨fun table => by cases table <;> decide, List.forall_mem_nil _⟩
  obtain ⟨rows, hrows, hremove⟩ := removeDashboard_closes_gap hc ht
  obtain ⟨hanswer, harranged⟩ := (hremove 1).1 (by decide)
  obtain ⟨-, hkept⟩ := (hremove 3).2 (by decide)
  have hleft := harranged.own
  rw [hrows.unique horder] at hleft
  exact ⟨hc, ht, hanswer, hleft, hkept⟩

end Removal

end Pinboard.Store
