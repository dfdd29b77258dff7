import Pinboard.Proofs.Mirror

/-!
# Requests to mirroring stores

Every request of an owner is answered alike by stores that mirror each other for it, and leaves them
mirroring each other: the same answer, with the dashboards in it renamed. Where the request makes a
dashboard, the renaming goes on to its number.
-/

namespace Pinboard.Store

/-! ## Outcomes that reflect each other -/

/-- The refusal with its dashboard renamed. -/
def Refusal.renamed (ρ : Renaming) : Refusal → Refusal
  | dashboardMissing id => dashboardMissing (ρ.short id)
  | r => r

/-- What was answered, with its dashboards renamed. -/
def Renaming.result {α β : Type} (ρ : Renaming) (f : α → β) : Except Refusal α → Except Refusal β
  | .ok a => .ok (f a)
  | .error r => .error (r.renamed ρ)

/-- An outcome is another one renamed, as far as an owner can tell. -/
structure Reflects {α β : Type} (ρ : Renaming) (f : α → β) (o : UserId)
    (p : Except Refusal β × Tables) (q : Except Refusal α × Tables) : Prop where
  /-- The answer is renamed. -/
  answer : p.1 = ρ.result f q.1
  /-- The tables mirror each other. -/
  tables : Mirror ρ o p.2 q.2

theorem Reflects.map {α β α' β' : Type} {ρ : Renaming} {f : α → β} {f' : α' → β'} {g : α → α'}
    {g' : β → β'} {o : UserId} {p : Except Refusal β × Tables} {q : Except Refusal α × Tables}
    (h : Reflects ρ f o p q) (hg : ∀ a, g' (f a) = f' (g a)) :
    Reflects ρ f' o (mapAnswer g' p) (mapAnswer g q) := by
  refine ⟨?_, h.tables⟩
  unfold mapAnswer
  rw [h.answer]
  cases q.1 with
  | error r => rfl
  | ok a => exact congrArg Except.ok (hg a)

theorem Reflects.mapped {α β α' β' : Type} {ρ : Renaming} {f : α → β} {f' : α' → β'} {g : α → α'}
    {g' : β → β'} {o : UserId} {c d : Connection} {op : Operation β} {op' : Operation α}
    (h : Reflects ρ f o (op.outcome c) (op'.outcome d)) (hg : ∀ a, g' (f a) = f' (g a)) :
    Reflects ρ f' o ((op.map g').outcome c) ((op'.map g).outcome d) := by
  rw [Operation.outcome_map, Operation.outcome_map]
  exact h.map hg

/-- An answer that only the database can refuse. -/
theorem result_fromStorage {α β : Type} (ρ : Renaming) (f : α → β) (x : Except StorageError α) :
    fromStorage (f <$> x) = ρ.result f (fromStorage x) := by
  cases x <;> rfl

/-- Two connections to sound stores that mirror each other for an owner, with numbers left. -/
structure Facing (ρ : Renaming) (o : UserId) (c d : Connection) : Prop where
  /-- The one is calm. -/
  calm : c.Calm
  /-- The other is calm. -/
  calm' : d.Calm
  /-- The counter of the one is right. -/
  counted : c.tables.Counted
  /-- The counter of the other is right. -/
  counted' : d.tables.Counted
  /-- There are numbers of 32 bits left. -/
  room : c.tables.lastDashboard < 4294967295
  /-- The stores mirror each other. -/
  mirror : Mirror ρ o c.tables d.tables

namespace Facing

variable {ρ σ : Renaming} {o : UserId} {c d : Connection}

theorem agree (h : Facing ρ o c d) (ha : σ.Agrees ρ d.tables.lastDashboard) : Facing σ o c d :=
  { h with mirror := h.mirror.agree h.counted' ha }

/-- A number that the counter of the other store has passed is one of 32 bits in both. -/
theorem num_lt (h : Facing ρ o c d) {n : Int} (hn : n ≤ d.tables.lastDashboard) :
    ρ.num n < 4294967296 := by
  have hle := Renaming.num_le (ρ := ρ) hn
  have hcounter := h.mirror.counter
  have hroom := h.room
  omega

theorem fits (h : Facing ρ o c d) : ∀ r ∈ d.tables.boardsOf o, r.Fits ρ := by
  intro r hr
  obtain ⟨hpos, hle⟩ := h.counted'.passed r (List.mem_filter.mp hr).1
  exact ⟨Int.le_of_lt hpos, h.num_lt hle⟩

/-- A question that both stores answer alike. -/
theorem inspect {α β : Type} {f : α → β} {needs : Schema → Except StorageError Unit}
    (h : Facing ρ o c d) (hd : Doubtful needs)
    (hneeds : needs ⟨Tables.fresh.present, []⟩ = .ok ()) {question : Tables → Except Refusal β}
    {question' : Tables → Except Refusal α}
    (hq : question c.tables = ρ.result f (question' d.tables)) :
    Reflects ρ f o ((Store.inspect .clear needs question).outcome c)
      ((Store.inspect .clear needs question').outcome d) := by
  rw [h.calm.inspect_outcome hd hneeds, h.calm'.inspect_outcome hd hneeds]
  exact ⟨hq, h.mirror⟩

/-! ## Dashboards -/

theorem orderedIds (h : Facing ρ o c d) :
    ∃ ids, c.tables.orderedIds o = .ok (ids.map ρ.short) ∧ d.tables.orderedIds o = .ok ids ∧
      ∀ a ∈ ids, ρ.num (wide a) < 4294967296 :=
  h.mirror.orderedIds h.calm.tables h.calm'.tables h.fits

theorem findDashboard (h : Facing ρ o c d) {id : UInt32} (hid : wide id ≤ d.tables.lastDashboard) :
    Reflects ρ (Option.map ρ.dashboard) o
      ((findDashboard .clear o (ρ.short id)).outcome c)
      ((findDashboard .clear o id).outcome d) := by
  refine h.inspect (fun _ _ _ => requireTable_doubtful) rfl ?_
  rw [Tables.dashboardRows_eq_ok.mpr h.calm.tables.boards_eq,
    Tables.dashboardRows_eq_ok.mpr h.calm'.tables.boards_eq, ← result_fromStorage]
  simp only [except_ok_bind, Tables.find?_boardsOf, h.mirror.boards, find?_renamed (h.num_lt hid)]
  cases hfound : (d.tables.boardsOf o).find? (·.id == wide id) with
  | none => rfl
  | some r =>
    have hr := h.fits r (List.mem_of_find?_eq_some hfound)
    simp only [Option.map_some, DashboardRow.read_renamed hr]
    cases r.read <;> rfl

theorem listDashboards (h : Facing ρ o c d) :
    Reflects ρ (List.map ρ.dashboard) o ((listDashboards .clear o).outcome c)
      ((listDashboards .clear o).outcome d) := by
  refine h.inspect (fun _ _ _ => requireTable_doubtful) rfl ?_
  have hfits : ∀ r ∈ d.tables.shown o, r.Fits ρ := fun r hr => h.fits r (List.mem_mergeSort.mp hr)
  rw [h.calm.tables.shownDashboards, h.calm'.tables.shownDashboards, ← result_fromStorage,
    except_ok_bind, except_ok_bind, h.mirror.shown, mapM_read_renamed hfits]

theorem moveDashboard (h : Facing ρ o c d) {id : UInt32} (hid : wide id ≤ d.tables.lastDashboard)
    (dir : Direction) :
    Reflects ρ (fun b => b) o ((moveDashboard .clear o (ρ.short id) dir).outcome c)
      ((moveDashboard .clear o id dir).outcome d) := by
  obtain ⟨ids, hc, hd, hids⟩ := h.orderedIds
  rw [moveDashboard_outcome (h.calm.tables.mem_present _),
    moveDashboard_outcome (h.calm'.tables.mem_present _), hc, hd]
  dsimp only
  rw [findIdx?_short hids (h.num_lt hid)]
  simp only [swapAdjacent?_map]
  cases hi : ids.findIdx? (· == id) with
  | none => exact ⟨rfl, h.mirror⟩
  | some i =>
    simp only [Option.bind_some]
    cases hswap : swapAdjacent? ids i dir with
    | none => exact ⟨rfl, h.mirror⟩
    | some swapped =>
      have hswapped : ∀ a ∈ swapped, ρ.num (wide a) < 4294967296 :=
        fun a ha => hids a ((swapAdjacent?_perm hswap).subset ha)
      exact ⟨rfl, h.mirror.placed hswapped 0⟩

theorem reindexDashboards (h : Facing ρ o c d) :
    Reflects ρ (fun u => u) o ((reindexDashboards .clear o).outcome c)
      ((reindexDashboards .clear o).outcome d) := by
  obtain ⟨ids, hc, hd, hids⟩ := h.orderedIds
  rw [reindexDashboards_outcome (h.calm.tables.mem_present _),
    reindexDashboards_outcome (h.calm'.tables.mem_present _), hc, hd]
  exact ⟨rfl, h.mirror.placed hids 0⟩

theorem removeDashboard (h : Facing ρ o c d) {id : UInt32}
    (hid : wide id ≤ d.tables.lastDashboard) :
    Reflects ρ (fun u => u) o ((removeDashboard .clear o (ρ.short id)).outcome c)
      ((removeDashboard .clear o id).outcome d) := by
  have hany : (c.tables.boardsOf o).any (·.id == wide (ρ.short id)) =
      (d.tables.boardsOf o).any (·.id == wide id) := by
    rw [h.mirror.boards, List.any_map, id_beq_renamed (h.num_lt hid)]
  rw [removeDashboard_outcome (h.calm.tables.mem_present _) (h.calm.tables.mem_present _)
      h.calm.steady.known,
    removeDashboard_outcome (h.calm'.tables.mem_present _) (h.calm'.tables.mem_present _)
      h.calm'.steady.known]
  dsimp only
  rw [Tables.any_boardsOf, Tables.any_boardsOf, hany]
  by_cases hthere : (d.tables.boardsOf o).any (·.id == wide id) = true
  · have hmirror := h.mirror.withoutBoard (h.num_lt hid)
    have hfits : ∀ r ∈ Tables.boardsOf { d.tables with
        dashboards := some (d.tables.boardsWithout o id) } o, r.Fits ρ := by
      intro r hr
      obtain ⟨hmem, howner⟩ := List.mem_filter.mp hr
      exact h.fits r (List.mem_filter.mpr ⟨(List.mem_filter.mp hmem).1, howner⟩)
    obtain ⟨ids, hc, hd, hids⟩ := hmirror.orderedIds (h.calm.tables.withBoards _ _)
      (h.calm'.tables.withBoards _ _) hfits
    rw [if_pos hthere, if_pos hthere, hc, hd]
    exact ⟨rfl, hmirror.placed hids 0⟩
  · rw [if_neg hthere, if_neg hthere]
    exact ⟨rfl, h.mirror⟩

/-- A new dashboard gets the next number in both, so the renaming goes on with it. -/
theorem createDashboard (h : Facing ρ o c d) {draft : Dashboard} (howner : draft.owner = o) :
    ∃ ρ' : Renaming, ρ'.Agrees ρ d.tables.lastDashboard ∧
      Mirror ρ' o ((createDashboard .clear draft).outcome c).2
        ((createDashboard .clear draft).outcome d).2 ∧
      ∀ σ : Renaming, σ.Agrees ρ' ((createDashboard .clear draft).outcome d).2.lastDashboard →
        ((createDashboard .clear draft).outcome c).1 =
          σ.result σ.dashboard ((createDashboard .clear draft).outcome d).1 := by
  have hcounter := h.mirror.counter
  have hlast : d.tables.lastDashboard ≤ c.tables.lastDashboard :=
    Int.le_trans (ρ.le _) hcounter
  have hroom := h.room
  have hstart := h.counted'.start
  have hagrees := ρ.extend_agrees hcounter
  have hsame := h.mirror.agree h.counted' hagrees
  refine ⟨ρ.extend c.tables.lastDashboard hcounter, hagrees, ?_⟩
  have hnext : (ρ.extend c.tables.lastDashboard hcounter).num (d.tables.lastDashboard + 1) =
      c.tables.lastDashboard + 1 := ρ.extend_next hcounter
  generalize ρ.extend c.tables.lastDashboard hcounter = ρ' at hagrees hsame hnext ⊢
  -- The counters differ, but the numbers after them correspond under the renaming that goes on.
  have hnumber := h.counted.nextNumber (by unfold greatestInteger; omega)
  have hnumber' := h.counted'.nextNumber (by unfold greatestInteger; omega)
  rw [createDashboard_outcome (h.calm.tables.mem_present _) (h.calm.tables.mem_present _) draft
      hnumber,
    createDashboard_outcome (h.calm'.tables.mem_present _) (h.calm'.tables.mem_present _) draft
      hnumber', howner,
    h.mirror.nextOrder h.calm.tables h.calm'.tables]
  by_cases hblank : Text.allBlank draft.name = true
  · rw [if_pos hblank, if_pos hblank]
    exact ⟨hsame, fun _ _ => rfl⟩
  rw [if_neg hblank, if_neg hblank]
  cases d.tables.nextOrder o with
  | error e => exact ⟨hsame, fun _ _ => rfl⟩
  | ok order =>
    dsimp only
    by_cases huser : d.tables.HasUser (wide o)
    · rw [if_pos huser, if_pos (h.mirror.hasUser.mpr huser)]
      refine ⟨⟨?_, hsame.user, ?_, hsame.tags, hsame.uses⟩, fun σ hσ => ?_⟩
      · show ρ'.num (max _ _) ≤ max _ _
        exact Int.le_of_eq
          (by rw [Int.max_eq_right (by omega), Int.max_eq_right (by omega), hnext])
      · show (c.tables.boards ++ [_]).filter _ = ((d.tables.boards ++ [_]).filter _).map _
        have hboards := hsame.boards
        unfold Tables.boardsOf at hboards
        rw [List.filter_append, List.filter_append, List.map_append, hboards]
        congr 1
        simp [DashboardRow.renamed, hnext]
      · have hnew : σ.num (d.tables.lastDashboard + 1) = c.tables.lastDashboard + 1 := by
          rw [hσ _ (Int.le_max_right _ _), hnext]
        have hshort : σ.short (cut32 (d.tables.lastDashboard + 1)) =
            cut32 (c.tables.lastDashboard + 1) := by
          rw [Renaming.short_cut32 (by omega) (by omega), hnew]
        simp only [Renaming.result, Renaming.dashboard, hshort]
    · rw [if_neg huser, if_neg (mt h.mirror.hasUser.mp huser)]
      exact ⟨hsame, fun _ _ => rfl⟩

/-! ## Users -/

theorem findUser (h : Facing ρ o c d) :
    Reflects ρ (fun u => u) o ((findUser .clear o).outcome c) ((findUser .clear o).outcome d) := by
  refine h.inspect (fun _ _ _ => requireTable_doubtful) rfl ?_
  have hfind : c.tables.people.find? (·.id == wide o) = d.tables.people.find? (·.id == wide o) := by
    rw [← List.head?_filter, ← List.head?_filter, h.mirror.user]
  rw [Tables.userRows_eq_ok.mpr h.calm.tables.people_eq,
    Tables.userRows_eq_ok.mpr h.calm'.tables.people_eq, except_ok_bind, except_ok_bind, hfind,
    ← result_fromStorage, id_map']

theorem removeUser (h : Facing ρ o c d) :
    Reflects ρ (fun u => u) o ((removeUser .clear o).outcome c)
      ((removeUser .clear o).outcome d) := by
  rw [h.calm.removeUser_outcome, h.calm'.removeUser_outcome]
  by_cases huser : d.tables.HasUser (wide o)
  · rw [if_pos huser, if_pos (h.mirror.hasUser.mpr huser)]
    exact ⟨rfl, h.mirror.withoutUser⟩
  · rw [if_neg huser, if_neg (mt h.mirror.hasUser.mp huser)]
    exact ⟨rfl, h.mirror⟩

/-! ## Tags and uses -/

theorem findTag (h : Facing ρ o c d) (key : String) :
    Reflects ρ (fun a => a) o ((findTag .clear o key).outcome c)
      ((findTag .clear o key).outcome d) := by
  refine h.inspect (fun _ _ _ => requireTable_doubtful) rfl ?_
  have hfind := h.mirror.find?_tag (.text key)
  rw [h.calm.tables.tagsOf, h.calm'.tables.tagsOf, except_ok_bind, except_ok_bind,
    ← result_fromStorage, id_map']
  generalize (c.tables.definitionsOf o).find? (·.key == .text key) = found at hfind ⊢
  generalize (d.tables.definitionsOf o).find? (·.key == .text key) = found' at hfind ⊢
  rcases found with _ | r <;> rcases found' with _ | r'
  · rfl
  · cases hfind
  · cases hfind
  · have hplain : some r.plain = some r'.plain := hfind
    have hread : r.read = r'.read := by
      show r.plain.read = r'.plain.read
      rw [Option.some.inj hplain]
    dsimp only
    rw [hread]

theorem listTags (h : Facing ρ o c d) :
    Reflects ρ (fun a => a) o ((listTags .clear o).outcome c) ((listTags .clear o).outcome d) := by
  refine h.inspect (fun _ _ _ => requireTable_doubtful) rfl ?_
  have hsort : ∀ rows : List TagRow, (rows.mergeSort TagRow.keyBefore).map (·.plain) =
      (rows.map (·.plain)).mergeSort TagRow.keyBefore :=
    fun rows => List.map_mergeSort fun _ _ _ _ => rfl
  rw [h.calm.tables.tagsOf, h.calm'.tables.tagsOf, except_ok_bind, except_ok_bind,
    ← mapM_read_plain, hsort, h.mirror.tags, ← hsort, mapM_read_plain, ← result_fromStorage,
    id_map']

theorem rankTags (h : Facing ρ o c d) :
    Reflects ρ (fun a => a) o ((rankTags .clear o).outcome c) ((rankTags .clear o).outcome d) := by
  refine h.inspect (fun _ _ _ => requireRanking_doubtful) rfl ?_
  rw [Tables.recentRows_eq_ok.mpr h.calm.tables.recents_eq,
    Tables.recentRows_eq_ok.mpr h.calm'.tables.recents_eq, except_ok_bind, except_ok_bind,
    h.calm.tables.tagsOf, h.calm'.tables.tagsOf, except_ok_bind, except_ok_bind,
    ← mapM_read_plain, h.mirror.ranked, mapM_read_plain, ← result_fromStorage, id_map']

theorem createTag (h : Facing ρ o c d) {tag : Tag} (howner : tag.owner = o) :
    Reflects ρ (fun a => a) o ((createTag .clear tag).outcome c)
      ((createTag .clear tag).outcome d) := by
  rw [createTag_outcome h.calm.steady,
    createTag_outcome h.calm'.steady, howner, h.mirror.any_key]
  by_cases hblank : Text.allBlank tag.key = true
  · rw [if_pos hblank, if_pos hblank]
    exact ⟨rfl, h.mirror⟩
  rw [if_neg hblank, if_neg hblank]
  by_cases hkey : (d.tables.definitions.any fun r =>
      r.owner == wide o && r.key == .text tag.key) = true
  · rw [if_pos hkey, if_pos hkey]
    exact ⟨rfl, h.mirror⟩
  rw [if_neg hkey, if_neg hkey]
  by_cases huser : d.tables.HasUser (wide o)
  · rw [if_pos huser, if_pos (h.mirror.hasUser.mpr huser)]
    exact ⟨rfl, h.mirror.withTag (congrArg wide howner)⟩
  · rw [if_neg huser, if_neg (mt h.mirror.hasUser.mp huser)]
    exact ⟨rfl, h.mirror⟩

theorem removeTag (h : Facing ρ o c d) (key : String) :
    Reflects ρ (fun u => u) o ((removeTag .clear o key).outcome c)
      ((removeTag .clear o key).outcome d) := by
  rw [h.calm.removeTag_outcome, h.calm'.removeTag_outcome, h.mirror.any_key]
  by_cases hkey : (d.tables.definitions.any fun r =>
      r.owner == wide o && r.key == .text key) = true
  · rw [if_pos hkey, if_pos hkey]
    exact ⟨rfl, (h.mirror.withoutTag (.text key)).withoutUse (.text key)⟩
  · rw [if_neg hkey, if_neg hkey]
    exact ⟨rfl, h.mirror⟩

theorem findUse (h : Facing ρ o c d) (key : String) :
    Reflects ρ (fun a => a) o ((findUse .clear o key).outcome c)
      ((findUse .clear o key).outcome d) := by
  refine h.inspect (fun _ _ _ => requireTable_doubtful) rfl ?_
  have hfind := h.mirror.lastUsed_eq (.text key)
  rw [Tables.recentRows_eq_ok.mpr h.calm.tables.recents_eq,
    Tables.recentRows_eq_ok.mpr h.calm'.tables.recents_eq]
  dsimp only
  generalize c.tables.uses.find? (·.isFor (wide o) (.text key)) = found at hfind ⊢
  generalize d.tables.uses.find? (·.isFor (wide o) (.text key)) = found' at hfind ⊢
  rcases found with _ | r <;> rcases found' with _ | r'
  · rfl
  · cases hfind
  · cases hfind
  · have hlast : some r.lastUsed = some r'.lastUsed := hfind
    dsimp only
    rw [Option.some.inj hlast]
    cases r'.lastUsed.readInteger 0 "last_used_at" with
    | error e => rfl
    | ok ms =>
      dsimp only
      cases Time.Instant.ofMillis? ms <;> rfl

theorem recordUse (h : Facing ρ o c d) (strategy : Dialect.Strategy) (key : String)
    (moment : Time.Instant) :
    Reflects ρ (fun u => u) o ((recordUse .clear strategy o key moment).outcome c)
      ((recordUse .clear strategy o key moment).outcome d) := by
  rw [h.calm.recordUse_outcome, h.calm'.recordUse_outcome]
  have howner : (RecentRow.ofUse o key moment).owner = wide o := rfl
  rcases h.mirror.putRecent h.calm.tables h.calm'.tables strategy howner with
    ⟨t, v, ht, hv, hm⟩ | ⟨e, ht, hv⟩
  · rw [ht, hv]
    exact ⟨rfl, hm⟩
  · rw [ht, hv]
    exact ⟨rfl, h.mirror⟩

/-- Whatever the owner asks for, both connections are calm and counted afterwards. -/
theorem after (h : Facing ρ o c d) {own : Dialect.Strategy} {r r' : Request}
    (hroom : (r.run .clear own c).2.tables.lastDashboard < 4294967295)
    (hm : Mirror σ o (r.run .clear own c).2.tables (r'.run .clear own d).2.tables) :
    Facing σ o (r.run .clear own c).2 (r'.run .clear own d).2 where
  calm := h.calm.run own r
  calm' := h.calm'.run own r'
  counted := run_counted .clear own r c h.counted
  counted' := run_counted .clear own r' d h.counted'
  room := hroom
  mirror := hm

end Facing

/-! ## Whole requests -/

/-- The use that could not be recorded, with the dashboard renamed that the cause may name. -/
def Unrecorded.renamed (ρ : Renaming) (u : Unrecorded) : Unrecorded :=
  { u with cause := u.cause.renamed ρ }

/-- The answer with its dashboards renamed. -/
def Reply.renamed (ρ : Renaming) : Reply → Reply
  | dashboard d => dashboard (d.map ρ.dashboard)
  | dashboards ds => dashboards (ds.map ρ.dashboard)
  | unrecorded us => unrecorded (us.map (·.renamed ρ))
  | a => a

/-- The request with the dashboard renamed that it names. -/
def Request.renamed (ρ : Renaming) : Request → Request
  | findDashboard owner id => findDashboard owner (ρ.short id)
  | moveDashboard owner id d => moveDashboard owner (ρ.short id) d
  | removeDashboard owner id => removeDashboard owner (ρ.short id)
  | r => r

/-- The dashboard that a request names. -/
def Request.named? : Request → Option UInt32
  | findDashboard _ id => some id
  | moveDashboard _ id _ => some id
  | removeDashboard _ id => some id
  | _ => none

theorem Request.renamed_agrees {ρ σ : Renaming} {last : Int} {r : Request} (h : σ.Agrees ρ last)
    (hr : ∀ id ∈ r.named?, wide id ≤ last) : r.renamed σ = r.renamed ρ := by
  cases r with
  | findDashboard owner id => exact congrArg (findDashboard owner) (h.short (hr id rfl))
  | moveDashboard owner id d =>
    exact congrArg (moveDashboard owner · d) (h.short (hr id rfl))
  | removeDashboard owner id => exact congrArg (removeDashboard owner) (h.short (hr id rfl))
  | _ => rfl

/-- A request that names a renamed dashboard is itself a renamed request. -/
theorem Request.exists_renamed {ρ : Renaming} {had : List UInt32} {r : Request}
    (h : ∀ id ∈ r.named?, id ∈ had.map ρ.short) :
    ∃ r' : Request, r'.renamed ρ = r ∧ r'.owner? = r.owner? ∧ ∀ id ∈ r'.named?, id ∈ had := by
  cases r with
  | findDashboard owner id =>
    obtain ⟨id', hmem, rfl⟩ := List.mem_map.mp (h id rfl)
    exact ⟨.findDashboard owner id', rfl, rfl, fun _ hid => Option.some.inj hid ▸ hmem⟩
  | moveDashboard owner id d =>
    obtain ⟨id', hmem, rfl⟩ := List.mem_map.mp (h id rfl)
    exact ⟨.moveDashboard owner id' d, rfl, rfl, fun _ hid => Option.some.inj hid ▸ hmem⟩
  | removeDashboard owner id =>
    obtain ⟨id', hmem, rfl⟩ := List.mem_map.mp (h id rfl)
    exact ⟨.removeDashboard owner id', rfl, rfl, fun _ hid => Option.some.inj hid ▸ hmem⟩
  | _ => exact ⟨_, rfl, rfl, fun _ hid => nomatch hid⟩

/-- The first key of a batch is recorded, and then the others, whatever has come of it. -/
theorem recordUses_cons (s : Setting) (strategy : Dialect.Strategy) (owner : UserId)
    (moment : Time.Instant) (key : String) (keys : List String) (c : Connection) :
    recordUses s strategy owner moment (key :: keys) c =
      (match (recordUse s strategy owner key moment c).1 with
        | .ok _ => (recordUses s strategy owner moment keys
            (recordUse s strategy owner key moment c).2).1
        | .error cause => ⟨key, cause⟩ :: (recordUses s strategy owner moment keys
            (recordUse s strategy owner key moment c).2).1,
      (recordUses s strategy owner moment keys (recordUse s strategy owner key moment c).2).2) := by
  rw [recordUses]
  rcases recordUse s strategy owner key moment c with ⟨r | u, c'⟩ <;> rfl

namespace Facing

variable {ρ σ : Renaming} {o : UserId} {c d : Connection}

/-- A batch of uses is recorded alike, use by use. -/
theorem recordUses (h : Facing ρ o c d) (strategy : Dialect.Strategy) (moment : Time.Instant)
    (keys : List String) :
    (recordUses .clear strategy o moment keys c).1 =
        (recordUses .clear strategy o moment keys d).1.map (·.renamed ρ) ∧
      Mirror ρ o (recordUses .clear strategy o moment keys c).2.tables
        (recordUses .clear strategy o moment keys d).2.tables := by
  induction keys generalizing c d with
  | nil => exact ⟨rfl, h.mirror⟩
  | cons key keys ih =>
    obtain ⟨hanswer, hm⟩ := h.recordUse strategy key moment
    have hrun : ∀ c : Connection, (Request.run .clear strategy
        (.recordUse (some strategy) o key moment) c).2 =
          (Store.recordUse .clear strategy o key moment c).2 :=
      fun c => Operation.map_snd _ _ c
    have hnext : Facing ρ o (Store.recordUse .clear strategy o key moment c).2
        (Store.recordUse .clear strategy o key moment d).2 := by
      rw [← hrun, ← hrun]
      refine h.after ?_ ?_
      · rw [lastDashboard_run_eq _ _ _ _ fun _ => Request.noConfusion]
        exact h.room
      · rw [hrun, hrun]
        exact hm
    obtain ⟨hrest, hlast⟩ := ih hnext
    have hfirst : (Store.recordUse .clear strategy o key moment c).1 =
        ρ.result (fun u => u) (Store.recordUse .clear strategy o key moment d).1 := hanswer
    rw [recordUses_cons, recordUses_cons]
    refine ⟨?_, hlast⟩
    dsimp only
    rw [hfirst, hrest]
    cases (Store.recordUse .clear strategy o key moment d).1 <;> rfl

/-- A request of the owner that makes no dashboard is answered alike, and leaves the stores
mirroring each other. -/
theorem reflects (h : Facing ρ o c d) {r : Request} (hr : r.owner? = some o)
    (hnamed : ∀ id ∈ r.named?, wide id ≤ d.tables.lastDashboard)
    (hnew : ∀ draft, r ≠ .createDashboard draft) (own : Dialect.Strategy) :
    Reflects ρ (Reply.renamed ρ) o (((r.renamed ρ).run .clear own).outcome c)
      ((r.run .clear own).outcome d) := by
  cases r with
  | createUser => cases hr
  | createDashboard draft => exact absurd rfl (hnew draft)
  | recordUses strategy owner keys moment =>
    cases hr
    obtain ⟨hanswer, hm⟩ := h.recordUses (strategy.getD own) moment keys
    refine ⟨?_, hm⟩
    show Except.ok (Reply.unrecorded _) = Except.ok (Reply.unrecorded _)
    rw [hanswer]
  | findUser =>
    cases hr
    exact h.findUser.mapped fun _ => rfl
  | removeUser =>
    cases hr
    exact h.removeUser.mapped fun _ => rfl
  | findDashboard owner id =>
    cases hr
    exact (h.findDashboard (hnamed id rfl)).mapped fun _ => rfl
  | listDashboards =>
    cases hr
    exact h.listDashboards.mapped fun _ => rfl
  | moveDashboard owner id dir =>
    cases hr
    exact (h.moveDashboard (hnamed id rfl) dir).mapped fun _ => rfl
  | reindexDashboards =>
    cases hr
    exact h.reindexDashboards.mapped fun _ => rfl
  | removeDashboard owner id =>
    cases hr
    exact (h.removeDashboard (hnamed id rfl)).mapped fun _ => rfl
  | createTag tag =>
    exact (h.createTag (Option.some.inj hr)).mapped fun _ => rfl
  | findTag owner key =>
    cases hr
    exact (h.findTag key).mapped fun _ => rfl
  | listTags =>
    cases hr
    exact h.listTags.mapped fun _ => rfl
  | rankTags =>
    cases hr
    exact h.rankTags.mapped fun _ => rfl
  | removeTag owner key =>
    cases hr
    exact (h.removeTag key).mapped fun _ => rfl
  | recordUse strategy owner key moment =>
    cases hr
    exact (h.recordUse (strategy.getD own) key moment).mapped fun _ => rfl
  | findUse owner key =>
    cases hr
    exact (h.findUse key).mapped fun _ => rfl

/-- A request of the owner is answered alike under a renaming that goes on from the one that there
was, however it goes on from there. -/
theorem run (h : Facing ρ o c d) {r : Request} (hr : r.owner? = some o)
    (hnamed : ∀ id ∈ r.named?, wide id ≤ d.tables.lastDashboard) (own : Dialect.Strategy) :
    ∃ ρ' : Renaming, ρ'.Agrees ρ d.tables.lastDashboard ∧
      Mirror ρ' o ((r.renamed ρ).run .clear own c).2.tables (r.run .clear own d).2.tables ∧
      ∀ σ : Renaming, σ.Agrees ρ' (r.run .clear own d).2.tables.lastDashboard →
        ((r.renamed ρ).run .clear own c).1 =
          σ.result (Reply.renamed σ) (r.run .clear own d).1 := by
  -- Only a new dashboard makes the renaming go on.
  rcases r.makes_or_not with ⟨draft, rfl⟩ | hnew
  · obtain ⟨ρ', hagrees, hm, hanswer⟩ := h.createDashboard (Option.some.inj hr)
    have houtcome : ∀ c, (Request.run .clear own (.createDashboard draft)).outcome c =
        mapAnswer (.dashboard ∘ some) ((Store.createDashboard .clear draft).outcome c) :=
      fun c => Operation.outcome_map _ _ c
    have hreply : ∀ c, (Request.run .clear own (.createDashboard draft) c).1 =
        (.dashboard ∘ some) <$> ((Store.createDashboard .clear draft).outcome c).1 :=
      fun c => congrArg Prod.fst (houtcome c)
    have htables : ∀ c, (Request.run .clear own (.createDashboard draft) c).2.tables =
        ((Store.createDashboard .clear draft).outcome c).2 :=
      fun c => congrArg Prod.snd (houtcome c)
    have hsame : (Request.createDashboard draft).renamed ρ = .createDashboard draft := rfl
    rw [hsame]
    refine ⟨ρ', hagrees, ?_, fun σ hσ => ?_⟩
    · rw [htables, htables]
      exact hm
    · rw [htables] at hσ
      rw [hreply, hreply, hanswer σ hσ]
      cases ((Store.createDashboard .clear draft).outcome d).1 <;> rfl
  · refine ⟨ρ, fun _ _ => rfl, (h.reflects hr hnamed hnew own).tables, fun σ hσ => ?_⟩
    have hagrees : σ.Agrees ρ d.tables.lastDashboard := by
      rw [lastDashboard_run_eq _ _ _ _ hnew] at hσ
      exact hσ
    rw [← Request.renamed_agrees hagrees hnamed]
    exact ((h.agree hagrees).reflects hr hnamed hnew own).answer

end Facing

end Pinboard.Store
