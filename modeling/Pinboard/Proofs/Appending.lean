import Pinboard.Proofs.Drift

/-!
# New dashboards come last

A new dashboard gets the position after the last one of its owner, whatever whole numbers the
positions are, and so it is shown behind all the others. Where that position has more than 32 bits,
no dashboard is made: a position never wraps around.
-/

namespace Pinboard.Store

section Append

variable {t : Tables} {owner : UserId}

theorem Tables.HasUser.mem_present {o : Int} (h : t.HasUser o) : .users ∈ t.present := by
  obtain ⟨u, hu, -⟩ := h
  have hhas : t.has .users = true := by
    unfold Tables.has
    cases hrows : t.users with
    | none =>
      rw [hrows] at hu
      cases hu
    | some rows => rfl
  unfold Tables.present
  rw [if_pos hhas]
  exact List.mem_append_left _ (List.mem_singleton.mpr rfl)

/-- A row behind all positions of its owner is shown behind all rows of its owner. -/
theorem Tables.InOrder.append {rows : List DashboardRow} (h : t.InOrder owner rows)
    {row : DashboardRow} (n : Int) (howner : row.owner = wide owner)
    (hlast : ∀ r ∈ rows, r.order.place < row.order.place) :
    Tables.InOrder { t with dashboards := some (t.boards ++ [row]), lastDashboard := n } owner
      (rows ++ [row]) := by
  have hboards : Tables.boardsOf
      { t with dashboards := some (t.boards ++ [row]), lastDashboard := n } owner =
        t.boardsOf owner ++ [row] := by
    show (t.boards ++ [row]).filter _ = _
    rw [List.filter_append]
    simp [Tables.boardsOf, howner]
  refine ⟨?_, List.pairwise_append.mpr ⟨h.sorted, List.pairwise_singleton _ _, ?_⟩⟩
  · rw [hboards]
    exact h.perm.append_right [row]
  · intro a ha b hb
    rw [List.mem_singleton.mp hb]
    exact Prod.Lex.toLex_lt_toLex.mpr (Or.inl (hlast a ha))

/-- No dashboard of an owner is shown behind its last position. -/
theorem Tables.place_le_lastPosition (horder : ∀ r ∈ t.boardsOf owner, ∃ k, r.order = .integer k)
    {r : DashboardRow} (hr : r ∈ t.shown owner) :
    r.order.place ≤ lastPosition t.boards (wide owner) := by
  have hmem := (Tables.shown_perm t owner).mem_iff.mp hr
  have hcell : .integer r.order.place ∈ positions t.boards (wide owner) := by
    rw [← Tables.place_of_integer (horder r hmem)]
    exact List.mem_map_of_mem hmem
  exact le_lastPosition hcell

end Append

section Create

variable {c : Connection} {draft : Dashboard} {n : Int}

/-- What comes of making a dashboard, whatever whole numbers the positions are. -/
theorem createDashboard_numbered (hboards : .dashboards ∈ c.tables.present)
    (horder : ∀ r ∈ c.tables.boardsOf draft.owner, ∃ k, r.order = .integer k)
    (howner : c.tables.HasUser (wide draft.owner)) (hname : Text.allBlank draft.name = false)
    (hn : nextNumber (c.tables.boards.map (·.id)) c.tables.lastDashboard = .ok n) :
    let m := lastPosition c.tables.boards (wide draft.owner)
    ∃ e, (createDashboard .clear draft).outcome c =
      if -2147483648 ≤ m + 1 ∧ m + 1 ≤ 2147483647 then
        (.ok { draft with id := cut32 n, order := Int32.ofInt (m + 1) },
          { c.tables with
            dashboards := some (c.tables.boards ++
              [⟨n, wide draft.owner, .text draft.name, .integer (m + 1)⟩])
            lastDashboard := n })
      else (.error (.storage e), c.tables) := by
  intro m
  have hcells : ∀ cell ∈ positions c.tables.boards (wide draft.owner), ∃ k, cell = .integer k := by
    intro cell hcell
    obtain ⟨r, hr, rfl⟩ := List.mem_map.mp hcell
    exact horder r hr
  obtain ⟨-, hcounter, -, -⟩ := nextNumber_spec hn
  obtain ⟨e, hnext⟩ := nextOrder_eq (Tables.boards_eq hboards) hcells
  refine ⟨e, ?_⟩
  rw [createDashboard_outcome hboards howner.mem_present draft hn,
    if_neg (by rw [hname]; exact Bool.false_ne_true), hnext]
  by_cases hfits : -2147483648 ≤ m + 1 ∧ m + 1 ≤ 2147483647
  · have hwritten : (Int32.ofInt (m + 1)).toInt = m + 1 :=
      Int32.toInt_ofInt_of_le (by omega) (by omega)
    rw [if_pos hfits, if_pos hfits]
    dsimp only
    rw [if_pos howner, hwritten, Int.max_eq_right (Int.le_of_lt hcounter)]
  · rw [if_neg hfits, if_neg hfits]

/-- What making a dashboard does, whatever whole numbers the owner's positions are: with `m` the
last of them, the new dashboard has the position `m + 1` and is shown behind all the others. If that
does not fit into 32 bits, the database refuses, and nothing changes. -/
theorem createDashboard_appends (hboards : .dashboards ∈ c.tables.present)
    (hids : (c.tables.boards.map (·.id)).Nodup)
    (horder : ∀ r ∈ c.tables.boardsOf draft.owner, ∃ k, r.order = .integer k)
    (howner : c.tables.HasUser (wide draft.owner)) (hname : Text.allBlank draft.name = false)
    (hn : nextNumber (c.tables.boards.map (·.id)) c.tables.lastDashboard = .ok n)
    (hroom : n < 4294967296) :
    let m := lastPosition c.tables.boards (wide draft.owner)
    let row : DashboardRow := ⟨n, wide draft.owner, .text draft.name, .integer (m + 1)⟩
    let c' := (createDashboard .clear draft c).2
    (-2147483648 ≤ m + 1 ∧ m + 1 ≤ 2147483647 →
      (∃ d, (createDashboard .clear draft c).1 = .ok d ∧ wide d.id = n ∧ d.owner = draft.owner ∧
        d.name = draft.name ∧ d.order.toInt = m + 1) ∧
      c'.tables = { c.tables with
        dashboards := some (c.tables.boards ++ [row]), lastDashboard := n } ∧
      ∃ rows, c.tables.InOrder draft.owner rows ∧
        c'.tables.InOrder draft.owner (rows ++ [row])) ∧
    (¬ (-2147483648 ≤ m + 1 ∧ m + 1 ≤ 2147483647) →
      ∃ r, (createDashboard .clear draft c).1 = .error r ∧ r.failure.kind = .internal ∧
        c'.tables = c.tables) := by
  intro m row c'
  obtain ⟨e, houtcome⟩ := createDashboard_numbered hboards horder howner hname hn
  by_cases hfits : -2147483648 ≤ m + 1 ∧ m + 1 ≤ 2147483647
  · rw [if_pos hfits] at houtcome
    obtain ⟨hanswer, hleft⟩ := Prod.mk.inj houtcome
    obtain ⟨-, -, hpos, -⟩ := nextNumber_spec hn
    have hnumber : wide (cut32 n) = n := wide_cut32 (Int.le_of_lt hpos) hroom
    have hwritten : (Int32.ofInt (m + 1)).toInt = m + 1 :=
      Int32.toInt_ofInt_of_le (by omega) (by omega)
    have hshown : c.tables.InOrder draft.owner (c.tables.shown draft.owner) :=
      Tables.inOrder_shown hids fun r hr => Tables.place_of_integer (horder r hr)
    have happended : c'.tables.InOrder draft.owner (c.tables.shown draft.owner ++ [row]) := by
      rw [show c'.tables = _ from hleft]
      exact hshown.append n rfl fun r hr =>
        Int.lt_add_one_of_le (Tables.place_le_lastPosition horder hr)
    exact ⟨fun _ => ⟨⟨_, hanswer, hnumber, rfl, rfl, hwritten⟩, hleft, _, hshown, happended⟩,
      fun hno => absurd hfits hno⟩
  · rw [if_neg hfits] at houtcome
    obtain ⟨hanswer, hleft⟩ := Prod.mk.inj houtcome
    exact ⟨fun hyes => absurd hyes hfits, fun _ => ⟨_, hanswer, rfl, hleft⟩⟩

/-- Of three owners, one has positions with gaps between them, one has the greatest number that
there is for a position, and one has no dashboard. The number and position of a draft do not
count. -/
theorem createDashboard_appends_in_drifted_layout :
    let t : Tables := { Tables.fresh with
      users := some [⟨1, .text "u"⟩, ⟨2, .text "v"⟩, ⟨3, .text "w"⟩]
      dashboards := some [⟨1, 1, .text "a", .integer 7⟩, ⟨2, 1, .text "b", .integer (-5)⟩,
        ⟨9, 2, .text "c", .integer 9223372036854775807⟩] }
    let c : Connection := ⟨t, {}, 0⟩
    (∃ d, (createDashboard .clear ⟨4, 1, "d", -8⟩ c).1 = .ok d ∧ wide d.id = 10 ∧
      d.order.toInt = 8) ∧
    (createDashboard .clear ⟨4, 1, "d", -8⟩ c).2.tables.InOrder 1 [⟨2, 1, .text "b", .integer (-5)⟩,
      ⟨1, 1, .text "a", .integer 7⟩, ⟨10, 1, .text "d", .integer 8⟩] ∧
    (∃ r, (createDashboard .clear ⟨4, 2, "d", -8⟩ c).1 = .error r ∧ r.failure.kind = .internal ∧
      (createDashboard .clear ⟨4, 2, "d", -8⟩ c).2.tables = t) ∧
    ∃ d, (createDashboard .clear ⟨4, 3, "d", -8⟩ c).1 = .ok d ∧ wide d.id = 10 ∧
      d.order.toInt = 0 := by
  intro t c
  have hfirst : t.InOrder 1 [⟨2, 1, .text "b", .integer (-5)⟩, ⟨1, 1, .text "a", .integer 7⟩] := by
    decide
  have horder : ∀ owner, ∀ r ∈ t.boardsOf owner, ∃ k, r.order = .integer k := by
    intro owner r hr
    have hr := (List.mem_filter.mp hr).1
    simp only [t, Tables.boards, Option.getD_some, List.mem_cons, List.not_mem_nil, or_false] at hr
    rcases hr with rfl | rfl | rfl <;> exact ⟨_, rfl⟩
  have hname : Text.allBlank "d" = false := by decide
  have happends : ∀ owner, t.HasUser (wide owner) → _ := fun owner howner =>
    @createDashboard_appends c ⟨4, owner, "d", -8⟩ 10 (by decide) (by decide) (horder owner)
      howner hname (by decide) (by decide)
  obtain ⟨⟨d, hd, hid, -, -, hnext⟩, -, rows, hrows, hrows'⟩ :=
    (happends 1 (by decide)).1 (by decide)
  obtain ⟨⟨d', hd', hid', -, -, hnext'⟩, -⟩ := (happends 3 (by decide)).1 (by decide)
  rw [hrows.unique hfirst] at hrows'
  exact ⟨⟨d, hd, hid, hnext⟩, hrows', (happends 2 (by decide)).2 (by decide), d', hd', hid', hnext'⟩

end Create

end Pinboard.Store
