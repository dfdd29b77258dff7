import Pinboard.Proofs.Positions
import Pinboard.Proofs.Renaming

/-!
# A shared store and an owner's own

Two stores mirror each other for an owner when what the owner has in the one is, up to a renaming of
dashboards, what it has in the other. Other owners may have anything in either. What is read of the
owner's rows is the same in both, and rows of the owner that change, come or go in both alike leave
them mirroring each other.
-/

namespace Pinboard.Store

/-! ## What an owner has -/

/-- The row without its own number, which nothing but faults can see. -/
def TagRow.plain (r : TagRow) : TagRow := { r with number := unnumbered }

/-- The row without its own number, which nothing but faults can see. -/
def RecentRow.plain (r : RecentRow) : RecentRow := { r with number := unnumbered }

namespace Tables

/-- The dashboards of an owner. -/
def boardsOf (t : Tables) (o : UserId) : List DashboardRow := t.boards.filter (·.owner == wide o)

/-- The tag definitions of an owner. -/
def definitionsOf (t : Tables) (o : UserId) : List TagRow :=
  t.definitions.filter (·.owner == wide o)

/-- The recent uses of an owner. -/
def usesOf (t : Tables) (o : UserId) : List RecentRow := t.uses.filter (·.owner == wide o)

/-- The dashboards of an owner in the order they are shown in. -/
def shown (t : Tables) (o : UserId) : List DashboardRow :=
  (t.boardsOf o).mergeSort DashboardRow.shownBefore

end Tables

/-- What an owner has in a store is what it has in another, its dashboards renamed. -/
structure Mirror (ρ : Renaming) (o : UserId) (t v : Tables) : Prop where
  /-- The counter of the one is not behind that of the other. -/
  counter : ρ.num v.lastDashboard ≤ t.lastDashboard
  /-- The owner itself is the same. -/
  user : t.people.filter (·.id == wide o) = v.people.filter (·.id == wide o)
  /-- The dashboards are renamed. -/
  boards : t.boardsOf o = (v.boardsOf o).map (·.renamed ρ)
  /-- The tag definitions are the same. -/
  tags : (t.definitionsOf o).map (·.plain) = (v.definitionsOf o).map (·.plain)
  /-- The uses are the same. -/
  uses : (t.usesOf o).map (·.plain) = (v.usesOf o).map (·.plain)

namespace Mirror

variable {ρ σ : Renaming} {o : UserId} {t v : Tables}

theorem refl (o : UserId) (t : Tables) : Mirror .refl o t t :=
  ⟨Int.le_refl _, rfl, (List.map_id _).symm, rfl, rfl⟩

theorem hasUser (h : Mirror ρ o t v) : t.HasUser (wide o) ↔ v.HasUser (wide o) := by
  have hfilter : ∀ t : Tables, t.HasUser (wide o) ↔ t.people.filter (·.id == wide o) ≠ [] := by
    intro t
    simp [Tables.HasUser, Tables.people, List.filter_eq_nil_iff]
  rw [hfilter, hfilter, h.user]

/-- Only what a renaming does to the numbers that there have been counts. -/
theorem agree (h : Mirror ρ o t v) (hv : v.Counted) (ha : σ.Agrees ρ v.lastDashboard) :
    Mirror σ o t v := by
  refine ⟨?_, h.user, ?_, h.tags, h.uses⟩
  · rw [ha _ (Int.le_refl _)]
    exact h.counter
  · rw [h.boards]
    refine List.map_congr_left fun r hr => ?_
    unfold DashboardRow.renamed
    rw [ha _ (hv.passed r (List.mem_filter.mp hr).1).2]

theorem shown (h : Mirror ρ o t v) : t.shown o = (v.shown o).map (·.renamed ρ) := by
  unfold Tables.shown
  rw [h.boards, mergeSort_renamed]

end Mirror

/-! ## Dashboards -/

theorem Tables.shownDashboards_eq {t : Tables} (h : .dashboards ∈ t.present) (o : UserId) :
    t.shownDashboards o = .ok (t.shown o) := by
  unfold Tables.shownDashboards
  rw [Tables.dashboardRows_eq_ok.mpr (Tables.boards_eq h)]
  rfl

theorem Tables.Sound.shownDashboards {t : Tables} (h : t.Sound) (o : UserId) :
    t.shownDashboards o = .ok (t.shown o) :=
  Tables.shownDashboards_eq (h.mem_present _) o

theorem mapM_readUInt32 {rows : List DashboardRow}
    (h : ∀ r ∈ rows, 0 ≤ r.id ∧ r.id < 4294967296) :
    (rows.mapM fun r => readUInt32 r.id 0) = .ok (rows.map fun r => cut32 r.id) := by
  induction rows with
  | nil => rfl
  | cons r rows ih =>
    obtain ⟨⟨h0, hlt⟩, hrows⟩ := List.forall_mem_cons.mp h
    rw [List.mapM_cons, readUInt32_eq h0 hlt, ih hrows]
    rfl

theorem Tables.find?_boardsOf (t : Tables) (o : UserId) (n : Int) :
    (t.boards.find? fun r => r.id == n && r.owner == wide o) =
      (t.boardsOf o).find? (·.id == n) := by
  unfold boardsOf
  rw [List.find?_filter]
  simp only [Bool.decide_and, Bool.decide_eq_true, Bool.and_comm]

theorem Tables.any_boardsOf (t : Tables) (o : UserId) (n : Int) :
    (t.boards.any fun r => r.id == n && r.owner == wide o) = (t.boardsOf o).any (·.id == n) := by
  unfold boardsOf
  rw [List.any_filter]
  simp only [Bool.and_comm]

theorem Tables.boardsOf_without (t : Tables) (o : UserId) (id : UInt32) :
    Tables.boardsOf { t with dashboards := some (t.boardsWithout o id) } o =
      (t.boardsOf o).filter fun r => !(r.id == wide id) := by
  show (t.boardsWithout o id).filter _ = _
  unfold Tables.boardsWithout Tables.boardsOf
  rw [List.filter_filter, List.filter_filter]
  refine List.filter_congr fun r _ => ?_
  cases r.owner == wide o <;> simp

namespace Mirror

variable {ρ : Renaming} {o : UserId} {t v : Tables}

/-- The numbers that the owner is shown are renamed, in the same order. -/
theorem orderedIds (h : Mirror ρ o t v) (ht : t.Sound) (hv : v.Sound)
    (hfits : ∀ r ∈ v.boardsOf o, r.Fits ρ) :
    ∃ ids, t.orderedIds o = .ok (ids.map ρ.short) ∧ v.orderedIds o = .ok ids ∧
      ∀ a ∈ ids, ρ.num (wide a) < 4294967296 := by
  have hshown : ∀ r ∈ v.shown o, r.Fits ρ := fun r hr => hfits r (List.mem_mergeSort.mp hr)
  refine ⟨(v.shown o).map fun r => cut32 r.id, ?_, ?_, ?_⟩
  · have hmap : ((v.shown o).map fun r => cut32 r.id).map ρ.short =
        (t.shown o).map fun r => cut32 r.id := by
      rw [h.shown, List.map_map, List.map_map]
      exact List.map_congr_left fun r hr => (hshown r hr).id_eq.2
    unfold Tables.orderedIds
    rw [ht.shownDashboards, except_ok_bind, hmap, mapM_readUInt32]
    rw [h.shown]
    intro r hr
    obtain ⟨r', hr', rfl⟩ := List.mem_map.mp hr
    obtain ⟨h0, hlt⟩ := hshown r' hr'
    exact ⟨ρ.num_nonneg h0, hlt⟩
  · unfold Tables.orderedIds
    rw [hv.shownDashboards, except_ok_bind, mapM_readUInt32]
    intro r hr
    obtain ⟨h0, hlt⟩ := hshown r hr
    exact ⟨h0, Int.lt_of_le_of_lt (ρ.le _) hlt⟩
  · intro a ha
    obtain ⟨r, hr, rfl⟩ := List.mem_map.mp ha
    rw [(hshown r hr).id_eq.1]
    exact (hshown r hr).2

/-- Positions are written alike. -/
theorem placed (h : Mirror ρ o t v) {ids : List UInt32}
    (hids : ∀ a ∈ ids, ρ.num (wide a) < 4294967296) (i : Nat) :
    Mirror ρ o { t with dashboards := some (Store.placed o i (ids.map ρ.short) t.boards) }
      { v with dashboards := some (Store.placed o i ids v.boards) } := by
  refine ⟨h.counter, h.user, ?_, h.tags, h.uses⟩
  have hboards := h.boards
  unfold Tables.boardsOf at hboards ⊢
  show (Store.placed o i (ids.map ρ.short) t.boards).filter _ =
    ((Store.placed o i ids v.boards).filter _).map _
  rw [placed_own, placed_own, hboards, placed_renamed hids]

/-- A dashboard goes from both. -/
theorem withoutBoard (h : Mirror ρ o t v) {id : UInt32} (hid : ρ.num (wide id) < 4294967296) :
    Mirror ρ o { t with dashboards := some (t.boardsWithout o (ρ.short id)) }
      { v with dashboards := some (v.boardsWithout o id) } := by
  refine ⟨h.counter, h.user, ?_, h.tags, h.uses⟩
  have hpred : (fun r : DashboardRow => !(r.id == wide (ρ.short id))) ∘ DashboardRow.renamed ρ =
      fun r => !(r.id == wide id) :=
    congrArg (fun p r => !p r) (id_beq_renamed hid)
  rw [Tables.boardsOf_without, Tables.boardsOf_without, h.boards, List.filter_map, hpred]

theorem nextOrder (h : Mirror ρ o t v) (ht : t.Sound) (hv : v.Sound) :
    t.nextOrder o = v.nextOrder o := by
  have horder : (t.boardsOf o).map (·.order) = (v.boardsOf o).map (·.order) := by
    rw [h.boards, List.map_map]
    rfl
  unfold Tables.boardsOf at horder
  unfold Tables.nextOrder
  rw [Tables.dashboardRows_eq_ok.mpr ht.boards_eq, Tables.dashboardRows_eq_ok.mpr hv.boards_eq,
    except_ok_bind, except_ok_bind, horder]

end Mirror

/-! ## The owner itself -/

theorem filter_gone {α : Type} (owner : α → Int) (rows : Option (List α)) (o : Int) :
    ((rows.map (·.filter (!owner · == o))).getD []).filter (owner · == o) = [] := by
  cases rows with
  | none => rfl
  | some rows =>
    rw [Option.map_some, Option.getD_some, List.filter_filter, List.filter_eq_nil_iff]
    intro r _
    simp

/-- Nothing is left of an owner that goes. -/
theorem Mirror.withoutUser {ρ : Renaming} {o : UserId} {t v : Tables} (h : Mirror ρ o t v) :
    Mirror ρ o
      { t.withoutBelongings (· == wide o) with
        users := some (t.people.filter (!·.id == wide o)) }
      { v.withoutBelongings (· == wide o) with
        users := some (v.people.filter (!·.id == wide o)) } := by
  have hboards : ∀ (t : Tables) (users : Option (List UserRow)),
      Tables.boardsOf { t.withoutBelongings (· == wide o) with users := users } o = [] :=
    fun t _ => filter_gone DashboardRow.owner t.dashboards (wide o)
  have htags : ∀ (t : Tables) (users : Option (List UserRow)),
      Tables.definitionsOf { t.withoutBelongings (· == wide o) with users := users } o = [] :=
    fun t _ => filter_gone TagRow.owner t.tags (wide o)
  have huses : ∀ (t : Tables) (users : Option (List UserRow)),
      Tables.usesOf { t.withoutBelongings (· == wide o) with users := users } o = [] :=
    fun t _ => filter_gone RecentRow.owner t.recents (wide o)
  refine ⟨h.counter, ?_, ?_, ?_, ?_⟩
  · exact (filter_gone UserRow.id (some _) _).trans (filter_gone UserRow.id (some _) _).symm
  · rw [hboards, hboards]
    rfl
  · rw [htags, htags]
  · rw [huses, huses]

/-! ## Tags -/

/-- Tags are read without regard to the numbers of their rows. -/
theorem mapM_read_plain (rows : List TagRow) :
    (rows.map (·.plain)).mapM TagRow.read = rows.mapM TagRow.read := by
  rw [List.mapM_map]
  rfl

theorem Tables.tagsOf_eq {t : Tables} (h : .tags ∈ t.present) (o : UserId) :
    t.tagsOf o = .ok (t.definitionsOf o) := by
  unfold Tables.tagsOf
  rw [Tables.tagRows_eq_ok.mpr (Tables.definitions_eq h)]
  rfl

theorem Tables.Sound.tagsOf {t : Tables} (h : t.Sound) (o : UserId) :
    t.tagsOf o = .ok (t.definitionsOf o) :=
  Tables.tagsOf_eq (h.mem_present _) o

namespace Mirror

variable {ρ : Renaming} {o : UserId} {t v : Tables}

/-- The tags with a key are the same, up to the numbers of the rows. -/
theorem find?_tag (h : Mirror ρ o t v) (key : Cell) :
    ((t.definitionsOf o).find? (·.key == key)).map (·.plain) =
      ((v.definitionsOf o).find? (·.key == key)).map (·.plain) := by
  have hfind := congrArg (List.find? fun r : TagRow => r.key == key) h.tags
  rw [List.find?_map, List.find?_map] at hfind
  exact hfind

theorem any_key (h : Mirror ρ o t v) (key : Cell) :
    (t.definitions.any fun r => r.owner == wide o && r.key == key) =
      v.definitions.any fun r => r.owner == wide o && r.key == key := by
  have hany : ∀ t : Tables, (t.definitions.any fun r => r.owner == wide o && r.key == key) =
      ((t.definitionsOf o).map (·.plain)).any (·.key == key) := by
    intro t
    unfold Tables.definitionsOf
    rw [List.any_map, List.any_filter]
    rfl
  rw [hany, hany, h.tags]

theorem withTag (h : Mirror ρ o t v) {row : TagRow} (howner : row.owner = wide o) :
    Mirror ρ o { t with tags := some (t.definitions ++ [row.numbered t.definitions]) }
      { v with tags := some (v.definitions ++ [row.numbered v.definitions]) } := by
  refine ⟨h.counter, h.user, h.boards, ?_, h.uses⟩
  have hadded : ∀ t : Tables, (Tables.definitionsOf { t with
      tags := some (t.definitions ++ [row.numbered t.definitions]) } o).map (·.plain) =
        (t.definitionsOf o).map (·.plain) ++ [row.plain] := by
    intro t
    show ((t.definitions ++ [_]).filter _).map _ = _
    rw [List.filter_append, List.map_append]
    congr 1
    simp [TagRow.numbered, howner, TagRow.plain]
  rw [hadded, hadded, h.tags]

theorem withoutTag (h : Mirror ρ o t v) (key : Cell) :
    Mirror ρ o
      { t with
        tags := some (t.definitions.filter fun r => !(r.owner == wide o && r.key == key)) }
      { v with
        tags := some (v.definitions.filter fun r => !(r.owner == wide o && r.key == key)) } := by
  refine ⟨h.counter, h.user, h.boards, ?_, h.uses⟩
  have hleft : ∀ t : Tables, (Tables.definitionsOf { t with
      tags := some (t.definitions.filter fun r => !(r.owner == wide o && r.key == key)) } o).map
        (·.plain) = ((t.definitionsOf o).map (·.plain)).filter (!·.key == key) := by
    intro t
    show ((t.definitions.filter _).filter _).map _ = _
    unfold Tables.definitionsOf
    rw [List.filter_map, List.filter_filter, List.filter_filter]
    congr 1
    refine List.filter_congr fun r _ => ?_
    simp only [Function.comp_apply, TagRow.plain]
    cases r.owner == wide o <;> simp
  rw [hleft, hleft, h.tags]

end Mirror

/-! ## Recent uses -/

/-- The use of one of the owner's keys is among the owner's uses. -/
theorem Tables.find?_usesOf (t : Tables) (o : UserId) (key : Cell) :
    t.uses.find? (·.isFor (wide o) key) = (t.usesOf o).find? (·.isFor (wide o) key) := by
  unfold Tables.usesOf
  rw [List.find?_filter]
  congr 1
  funext u
  rw [Bool.eq_iff_iff]
  simp [RecentRow.isFor]

namespace Mirror

variable {ρ : Renaming} {o : UserId} {t v : Tables}

theorem lastUsed_eq (h : Mirror ρ o t v) (key : Cell) :
    (t.uses.find? (·.isFor (wide o) key)).map (·.lastUsed) =
      (v.uses.find? (·.isFor (wide o) key)).map (·.lastUsed) := by
  have hplain : ∀ rows : List RecentRow,
      (rows.find? (·.isFor (wide o) key)).map (·.lastUsed) =
        ((rows.map (·.plain)).find? (·.isFor (wide o) key)).map (·.lastUsed) := by
    intro rows
    rw [List.find?_map, Option.map_map]
    rfl
  rw [Tables.find?_usesOf, Tables.find?_usesOf, hplain, h.uses, ← hplain]

theorem any_use (h : Mirror ρ o t v) (key : Cell) :
    t.uses.any (·.isFor (wide o) key) = v.uses.any (·.isFor (wide o) key) := by
  have hfind := congrArg Option.isSome (h.lastUsed_eq key)
  rw [Option.isSome_map, Option.isSome_map, List.isSome_find?, List.isSome_find?] at hfind
  exact hfind

theorem ranked (h : Mirror ρ o t v) :
    ((t.definitionsOf o).mergeSort (ranksBefore t.uses)).map (·.plain) =
      ((v.definitionsOf o).mergeSort (ranksBefore v.uses)).map (·.plain) := by
  have hlast : ∀ r ∈ t.definitionsOf o, lastUse? t.uses r = lastUse? v.uses r.plain := by
    intro r hr
    have howner : r.owner = wide o := by simpa using (List.mem_filter.mp hr).2
    unfold lastUse?
    rw [show r.plain.owner = r.owner from rfl, howner]
    exact h.lastUsed_eq _
  -- The rows rank by the uses of the shared store as their plain forms do by those of the other.
  have ht : ∀ a ∈ t.definitionsOf o, ∀ b ∈ t.definitionsOf o,
      ranksBefore t.uses a b = ranksBefore v.uses a.plain b.plain := by
    intro a ha b hb
    unfold ranksBefore
    rw [hlast a ha, hlast b hb]
    rfl
  have hv : ∀ a ∈ v.definitionsOf o, ∀ b ∈ v.definitionsOf o,
      ranksBefore v.uses a b = ranksBefore v.uses a.plain b.plain := fun _ _ _ _ => rfl
  rw [List.map_mergeSort ht, h.tags, List.map_mergeSort hv]

theorem withoutUse (h : Mirror ρ o t v) (key : Cell) :
    Mirror ρ o { t with recents := some (t.uses.filter (!·.isFor (wide o) key)) }
      { v with recents := some (v.uses.filter (!·.isFor (wide o) key)) } := by
  refine ⟨h.counter, h.user, h.boards, h.tags, ?_⟩
  have hleft : ∀ t : Tables, (Tables.usesOf { t with
      recents := some (t.uses.filter (!·.isFor (wide o) key)) } o).map (·.plain) =
        ((t.usesOf o).map (·.plain)).filter (!·.isFor (wide o) key) := by
    intro t
    show ((t.uses.filter _).filter _).map _ = _
    unfold Tables.usesOf
    rw [List.filter_map, List.filter_filter, List.filter_filter]
    congr 1
    refine List.filter_congr fun r _ => ?_
    simp only [Function.comp_apply, RecentRow.plain, RecentRow.isFor]
    exact Bool.and_comm _ _
  rw [hleft, hleft, h.uses]

/-- A use by the owner comes in both, numbered beside whatever rows. -/
theorem withUse (h : Mirror ρ o t v) {row : RecentRow} (howner : row.owner = wide o)
    (rows rows' : List RecentRow) :
    Mirror ρ o { t with recents := some (t.uses ++ [row.numbered rows]) }
      { v with recents := some (v.uses ++ [row.numbered rows']) } := by
  refine ⟨h.counter, h.user, h.boards, h.tags, ?_⟩
  have hadded : ∀ (t : Tables) (rows : List RecentRow), (Tables.usesOf { t with
      recents := some (t.uses ++ [row.numbered rows]) } o).map (·.plain) =
        (t.usesOf o).map (·.plain) ++ [row.plain] := by
    intro t rows
    show ((t.uses ++ [_]).filter _).map _ = _
    rw [List.filter_append, List.map_append]
    congr 1
    simp [RecentRow.numbered, howner, RecentRow.plain]
  rw [hadded, hadded, h.uses]

theorem withMoment (h : Mirror ρ o t v) (row : RecentRow) :
    Mirror ρ o { t with recents := some (retime row t.uses) }
      { v with recents := some (retime row v.uses) } := by
  refine ⟨h.counter, h.user, h.boards, h.tags, ?_⟩
  have hretimed : ∀ t : Tables,
      (Tables.usesOf { t with recents := some (retime row t.uses) } o).map (·.plain) =
        retime row ((t.usesOf o).map (·.plain)) := by
    intro t
    show ((retime row t.uses).filter _).map _ = _
    unfold Tables.usesOf retime
    rw [List.filter_map, List.map_map, List.map_map]
    have hown : (fun r : RecentRow => r.owner == wide o) ∘ (fun r : RecentRow =>
        if r.isFor row.owner row.key then { r with lastUsed := row.lastUsed } else r) =
          fun r => r.owner == wide o := by
      funext r
      rw [Function.comp_apply]
      split <;> rfl
    rw [hown]
    refine List.map_congr_left fun r _ => ?_
    rw [Function.comp_apply, Function.comp_apply,
      show r.plain.isFor row.owner row.key = r.isFor row.owner row.key from rfl]
    by_cases hfor : r.isFor row.owner row.key = true
    · rw [if_pos hfor, if_pos hfor]
      rfl
    · rw [if_neg hfor, if_neg hfor]
  rw [hretimed, hretimed, h.uses]

theorem putRecent (h : Mirror ρ o t v) (ht : t.Sound) (hv : v.Sound)
    (strategy : Dialect.Strategy) {row : RecentRow} (howner : row.owner = wide o) :
    (∃ t' v', Store.putRecent .clear strategy row t = .ok ((), t') ∧
        Store.putRecent .clear strategy row v = .ok ((), v') ∧ Mirror ρ o t' v') ∨
      ∃ e, Store.putRecent .clear strategy row t = .error e ∧
        Store.putRecent .clear strategy row v = .error e := by
  cases strategy with
  | duplicateKey => exact Or.inr ⟨_, rfl, rfl⟩
  | replace =>
    unfold Store.putRecent
    dsimp only
    rw [replaceRecent_sound ht, replaceRecent_sound hv, howner]
    by_cases huser : v.HasUser (wide o)
    · rw [if_pos huser, if_pos (h.hasUser.mpr huser)]
      exact Or.inl ⟨_, _, rfl, rfl, (h.withoutUse row.key).withUse howner _ _⟩
    · rw [if_neg huser, if_neg (mt h.hasUser.mp huser)]
      exact Or.inr ⟨_, rfl, rfl⟩
  | conflictTarget =>
    unfold Store.putRecent
    dsimp only
    rw [mergeRecent_sound ht, mergeRecent_sound hv, howner, h.any_use]
    by_cases hold : v.uses.any (·.isFor (wide o) row.key) = true
    · rw [if_pos hold, if_pos hold]
      exact Or.inl ⟨_, _, rfl, rfl, h.withMoment row⟩
    rw [if_neg hold, if_neg hold]
    by_cases huser : v.HasUser (wide o)
    · rw [if_pos huser, if_pos (h.hasUser.mpr huser)]
      exact Or.inl ⟨_, _, rfl, rfl, h.withUse howner _ _⟩
    · rw [if_neg huser, if_neg (mt h.hasUser.mp huser)]
      exact Or.inr ⟨_, rfl, rfl⟩

end Mirror

end Pinboard.Store
