import Pinboard.Proofs.Steadiness

/-!
# What is stored can be read again

The database keeps cells of any kind and numbers of 64 bits, and the readers of its rows refuse what
does not fit: numbers beyond 32 bits, cells that hold no text, moments out of range. No writer
leaves behind what a reader would refuse, as long as numbers of 32 bits last and the moments that
are recorded can be told. So an undisturbed request is never refused for the sake of what is stored.
-/

namespace Pinboard.Store

/-! ## Rows that can be read -/

/-- The position in a cell. -/
def Cell.place : Cell → Int
  | .integer n => n
  | _ => 0

/-- The cells of a dashboard hold what their readers take. -/
structure DashboardRow.Legible (r : DashboardRow) : Prop where
  /-- The number has 32 bits. -/
  id : 0 ≤ r.id ∧ r.id < 4294967296
  /-- The name is a text. -/
  name : r.name = .text r.name.wording
  /-- The position is a whole number. -/
  order : r.order = .integer r.order.place
  /-- It has 32 bits. -/
  place : 0 ≤ r.order.place ∧ r.order.place ≤ 2147483647

/-- The dashboard that is read from a row of an owner. -/
def DashboardRow.dashboard (owner : UserId) (r : DashboardRow) : Dashboard :=
  ⟨cut32 r.id, owner, r.name.wording, Int32.ofInt r.order.place⟩

section Rows

variable {owner : UserId} {r : DashboardRow} {rows : List DashboardRow}

theorem DashboardRow.Legible.read (h : r.Legible) (howner : r.owner = wide owner) :
    r.read = .ok (r.dashboard owner) := by
  have hid : readUInt32 r.id 0 = .ok (cut32 r.id) := readUInt32_eq h.id.1 h.id.2 0
  have hname : r.name.readText 2 "name" = .ok r.name.wording := by rw [h.name]; rfl
  have horder : r.order.readInteger 3 "order" = .ok r.order.place := by rw [h.order]; rfl
  have hplace : readInt32 r.order.place 3 = .ok (Int32.ofInt r.order.place) := by
    have hfits := h.place
    exact if_pos ⟨by omega, hfits.2⟩
  unfold DashboardRow.read
  rw [hid, howner, readUInt32_wide, hname, horder]
  simp only [except_ok_bind, hplace]
  rfl

theorem mapM_readDashboard (h : ∀ r ∈ rows, r.Legible) (howner : ∀ r ∈ rows, r.owner = wide owner) :
    rows.mapM DashboardRow.read = .ok (rows.map (·.dashboard owner)) := by
  induction rows with
  | nil => rfl
  | cons r rows ih =>
    obtain ⟨hr, hrows⟩ := List.forall_mem_cons.mp h
    obtain ⟨ho, hos⟩ := List.forall_mem_cons.mp howner
    rw [List.mapM_cons, hr.read ho, ih hrows hos]
    rfl

end Rows

namespace Tables

/-- The moments in the ledger can be told. -/
def Dated (t : Tables) : Prop := ∀ owner key, ∀ cell ∈ t.useOf? owner key,
  ∃ ms, cell = .integer ms ∧ (Time.Instant.ofMillis? ms).isSome

/-- Everything in the tables can be read, but for numbers of dashboards that are too large. -/
structure Legible (t : Tables) : Prop where
  /-- The tables are as they have to be. -/
  kept : t.Kept
  /-- The cells of tag definitions hold texts. -/
  tags : ∀ r ∈ t.definitions, r.Legible
  /-- The moments of uses can be told. -/
  uses : t.Dated

theorem legible_fresh : Legible .fresh :=
  ⟨kept_fresh, fun _ hr => (nomatch hr), fun _ _ _ hc => nomatch hc⟩

/-- As long as numbers of 32 bits last, dashboards can be read. -/
theorem Kept.board {t : Tables} (h : t.Kept) (hroom : t.lastDashboard < 4294967296)
    {r : DashboardRow} (hr : r ∈ t.boards) : r.Legible := by
  obtain ⟨hpos, hle⟩ := h.counted.passed r hr
  obtain ⟨-, s, hs, -⟩ := h.housed r.identity (List.mem_map_of_mem hr)
  have hname : r.name = .text s := hs
  obtain ⟨n, horder, h0, hfits⟩ := (h.ordered.numbered h.sound.boards_eq).order hr
  refine ⟨⟨by omega, by omega⟩, by rw [hname]; rfl, by rw [horder]; rfl, ?_⟩
  rw [horder]
  exact ⟨h0, hfits⟩

end Tables

/-! ## What is written can be read -/

/-- The moments that are recorded can be told. -/
def Request.Timely : Request → Prop
  | recordUse _ _ _ moment => (Time.Instant.ofMillis? moment.millis).isSome
  | recordUses _ _ _ moment => (Time.Instant.ofMillis? moment.millis).isSome
  | _ => True

theorem TagRow.legible_ofTag (tag : Tag) (rows : List TagRow) :
    ((TagRow.ofTag tag).numbered rows).Legible :=
  ⟨rfl, rfl, rfl⟩

section Effect

variable {t t' : Tables} {r : Request} {a : Reply} {owner : UserId} {moment : Time.Instant}

theorem UsePut.dated {key : String} (h : UsePut (.ofUse owner key moment) t t')
    (hm : (Time.Instant.ofMillis? moment.millis).isSome) (hd : t.Dated) : t'.Dated := by
  intro o k cell hcell
  rw [h.useOf?] at hcell
  split at hcell
  · cases hcell
    exact ⟨moment.millis, rfl, hm⟩
  · exact hd o k cell hcell

theorem UsesPut.dated {keys : List String} {us : List Unrecorded}
    (h : UsesPut owner moment keys us t t') (hm : (Time.Instant.ofMillis? moment.millis).isSome)
    (hd : t.Dated) : t'.Dated := by
  induction h with
  | done t => exact hd
  | put h _ ih => exact ih (h.dated hm hd)
  | skip _ ih => exact ih hd

theorem Effect.dated (h : Effect t r a t') (hr : r.Timely) (hd : t.Dated) : t'.Dated := by
  by_cases hledger : r.changesLedger = false
  · intro o k cell hcell
    unfold Tables.useOf? Tables.uses at hcell
    rw [h.recents_eq hledger] at hcell
    exact hd o k cell hcell
  · cases r with
    | removeUser id =>
      intro o k cell hcell
      rw [h.removeUser_useOf?] at hcell
      split at hcell
      · cases hcell
      · exact hd o k cell hcell
    | removeTag o' k' =>
      intro o k cell hcell
      rw [h.removeTag_useOf?] at hcell
      split at hcell
      · cases hcell
      · exact hd o k cell hcell
    | recordUse strategy o k moment =>
      cases h with
      | question hq => cases hq
      | recordUse hput => exact hput.dated hr hd
    | recordUses strategy o ks moment =>
      cases h with
      | question hq => cases hq
      | recordUses hputs => exact hputs.dated hr hd
    | _ => exact absurd rfl hledger

theorem Effect.tags_legible (h : Effect t r a t') (hl : ∀ row ∈ t.definitions, row.Legible) :
    ∀ row ∈ t'.definitions, row.Legible := by
  intro row hrow
  rcases h.definitions_cases with hsub | ⟨tag, -, -, -, -, hadded⟩
  · exact hl row (hsub.subset hrow)
  · rw [hadded, List.mem_append, List.mem_singleton] at hrow
    rcases hrow with hold | rfl
    · exact hl row hold
    · exact TagRow.legible_ofTag tag _

/-- What a granted request leaves can be read, if what was there before could. -/
theorem Effect.legible (h : Effect t r a t') (hr : r.Timely) (hl : t.Legible) : t'.Legible :=
  ⟨h.kept hl.kept, h.tags_legible hl.tags, h.dated hr hl.uses⟩

end Effect

theorem Session.step_legible {w : Session} {st : Step} (hst : ∀ r, st.act = .ask r → r.Timely)
    (hw : w.tables.Legible) : (w.step st).2.tables.Legible := by
  rcases w.step_cases st with h | ⟨d, -, h⟩ | ⟨r, a, hact, -, heff⟩
  · rw [h]
    exact hw
  · rw [h, hw.kept.sound.addMissing]
    exact hw
  · exact heff.legible (hst r hact) hw

theorem Session.run_legible {w : Session} {steps : List Step}
    (hsteps : ∀ st ∈ steps, ∀ r, st.act = .ask r → r.Timely) (hw : w.tables.Legible) :
    (w.run steps).2.tables.Legible := by
  induction steps generalizing w with
  | nil => exact hw
  | cons st steps ih =>
    obtain ⟨hst, hrest⟩ := List.forall_mem_cons.mp hsteps
    exact ih hrest (step_legible hst hw)

/-! ## Questions -/

/-- The numbers of an owner's dashboards can be read where they have 32 bits. -/
theorem Tables.orderedIds_eq {t : Tables} {owner : UserId} (h : .dashboards ∈ t.present)
    (hids : ∀ r ∈ t.boardsOf owner, 0 ≤ r.id ∧ r.id < 4294967296) :
    t.orderedIds owner = .ok ((t.shown owner).map fun r => cut32 r.id) := by
  unfold Tables.orderedIds
  rw [Tables.shownDashboards_eq h, except_ok_bind]
  exact mapM_readUInt32 fun r hr => hids r (List.mem_mergeSort.mp hr)

theorem Tables.mem_shown {t : Tables} {owner : UserId} {r : DashboardRow} :
    r ∈ t.shown owner ↔ r ∈ t.boards ∧ r.owner = wide owner := by
  unfold Tables.shown Tables.boardsOf
  rw [List.mem_mergeSort, List.mem_filter, beq_iff_eq]

section Readable

variable {s : Setting} {c : Connection}

/-- The dashboards of an owner are listed as they are shown. -/
theorem listDashboards_readable (hread : s.beginReading = .ok ()) (hk : c.tables.Kept)
    (hroom : c.tables.lastDashboard < 4294967296) (owner : UserId) :
    (listDashboards s owner c).1 = .ok ((c.tables.shown owner).map (·.dashboard owner)) := by
  unfold listDashboards
  rw [inspect_table hread (hk.sound.mem_present _), hk.sound.shownDashboards, except_ok_bind,
    mapM_readDashboard]
  · rfl
  · exact fun r hr => hk.board hroom (Tables.mem_shown.mp hr).1
  · exact fun r hr => (Tables.mem_shown.mp hr).2

theorem findDashboard_readable (hread : s.beginReading = .ok ()) (hk : c.tables.Kept)
    (hroom : c.tables.lastDashboard < 4294967296) (owner : UserId) (id : UInt32) :
    (findDashboard s owner id c).1 = .ok
      (((c.tables.boardsOf owner).find? (·.id == wide id)).map (·.dashboard owner)) := by
  unfold findDashboard
  rw [inspect_table hread (hk.sound.mem_present _),
    Tables.dashboardRows_eq_ok.mpr hk.sound.boards_eq, except_ok_bind, Tables.find?_boardsOf]
  cases hfind : (c.tables.boardsOf owner).find? (·.id == wide id) with
  | none => rfl
  | some r =>
    obtain ⟨hmem, howner⟩ := List.mem_filter.mp (List.mem_of_find?_eq_some hfind)
    dsimp only
    rw [(hk.board hroom hmem).read (by simpa using howner)]
    rfl

theorem findUser_readable (hread : s.beginReading = .ok ()) (hk : c.tables.Kept) (id : UserId) :
    ∃ u, (findUser s id c).1 = .ok u := by
  unfold findUser
  rw [inspect_table hread (hk.sound.mem_present _), Tables.userRows_eq_ok.mpr hk.sound.people_eq,
    except_ok_bind]
  cases hfind : c.tables.people.find? (·.id == wide id) with
  | none => exact ⟨none, rfl⟩
  | some r =>
    have hid : r.id = wide id := by simpa using List.find?_some hfind
    obtain ⟨name, hname, -⟩ := hk.enrolled.worded r (List.mem_of_find?_eq_some hfind)
    refine ⟨some ⟨id, name⟩, ?_⟩
    dsimp only [UserRow.read]
    rw [hid, readUInt32_wide, hname]
    rfl

theorem findTag_readable (hread : s.beginReading = .ok ()) (hs : c.tables.Sound)
    (hl : ∀ r ∈ c.tables.definitions, r.Legible) (owner : UserId) (key : String) :
    (findTag s owner key c).1 = .ok
      (((c.tables.definitionsOf owner).find? (·.key == .text key)).map (·.tag owner)) := by
  unfold findTag
  rw [inspect_table hread (hs.mem_present _), hs.tagsOf, except_ok_bind]
  cases hfind : (c.tables.definitionsOf owner).find? (·.key == .text key) with
  | none => rfl
  | some r =>
    obtain ⟨hmem, howner⟩ := List.mem_filter.mp (List.mem_of_find?_eq_some hfind)
    dsimp only
    rw [(hl r hmem).read (by simpa using howner)]
    rfl

/-- Whatever order they are put in, the tags of an owner can be read. -/
theorem readTags {t : Tables} (hl : ∀ r ∈ t.definitions, r.Legible) (owner : UserId)
    (before : TagRow → TagRow → Bool) :
    ((t.definitionsOf owner).mergeSort before).mapM TagRow.read =
      .ok (((t.definitionsOf owner).mergeSort before).map (·.tag owner)) := by
  refine mapM_read (fun r hr => ?_) fun r hr => ?_
  · exact hl r (List.mem_filter.mp (List.mem_mergeSort.mp hr)).1
  · simpa using (List.mem_filter.mp (List.mem_mergeSort.mp hr)).2

theorem listTags_readable (hread : s.beginReading = .ok ()) (hs : c.tables.Sound)
    (hl : ∀ r ∈ c.tables.definitions, r.Legible) (owner : UserId) :
    (listTags s owner c).1 = .ok
      (((c.tables.definitionsOf owner).mergeSort TagRow.keyBefore).map (·.tag owner)) := by
  unfold listTags
  rw [inspect_table hread (hs.mem_present _), hs.tagsOf, except_ok_bind, readTags hl]
  rfl

end Readable

namespace Connection.Calm

variable {c : Connection}

theorem rankTags (hc : c.Calm) (hl : c.tables.Legible) (owner : UserId) :
    ∃ tags, (rankTags .clear owner c).1 = .ok tags := by
  rw [hc.steady.rankTags, readTags hl.tags]
  exact ⟨_, rfl⟩

theorem findUse (hc : c.Calm) (hl : c.tables.Legible) (owner : UserId) (key : String) :
    ∃ use, (findUse .clear owner key c).1 = .ok use := by
  rw [findUse_readable rfl hc.tables]
  cases huse : c.tables.useOf? (wide owner) (.text key) with
  | none => exact ⟨none, rfl⟩
  | some cell =>
    obtain ⟨ms, rfl, htold⟩ := hl.uses _ _ cell huse
    obtain ⟨moment, hmoment⟩ := Option.isSome_iff_exists.mp htold
    exact ⟨some ⟨owner, key, moment⟩, by simp only [Cell.readInteger, hmoment]⟩

end Connection.Calm

/-! ## Changes -/

/-- There is a next position as long as the owner has fewer dashboards than there are positions. -/
theorem Tables.Kept.nextOrder {t : Tables} (hk : t.Kept) {owner : UserId}
    (hfew : (t.boardsOf owner).length < 2147483648) : ∃ order, t.nextOrder owner = .ok order := by
  have hcontiguous := (hk.ordered.numbered hk.sound.boards_eq).contiguous (wide owner)
  have hcount : (positions t.boards (wide owner)).length < 2147483648 := by
    rw [length_positions]
    exact hfew
  obtain ⟨e, hnext⟩ := nextOrder_eq hk.sound.boards_eq hcontiguous.integers
  rw [hcontiguous.lastPosition, if_pos (by omega)] at hnext
  exact ⟨_, hnext⟩

/-- What the database can do: it makes dashboards and records uses for users that are there, and
does not know one of the ways to record a use. -/
def Request.Sensible (t : Tables) : Request → Prop
  | createDashboard draft => t.HasUser (wide draft.owner)
  | recordUse strategy owner _ _ => strategy ≠ some .duplicateKey ∧ t.HasUser (wide owner)
  | _ => True

/-- What cannot be refused: questions, what keeps dashboards in order, and the recording of a use
for a user that is there. -/
def Request.Unfailing (t : Tables) : Request → Prop
  | moveDashboard _ _ _ => True
  | reindexDashboards _ => True
  | recordUse strategy owner _ _ => strategy ≠ some .duplicateKey ∧ t.HasUser (wide owner)
  | r => r.isQuestion = true

theorem Operation.map_answer {α β : Type} {f : α → β} {op : Operation α} {c : Connection}
    (h : ∃ a, (op c).1 = .ok a) : ∃ b, (op.map f c).1 = .ok b := by
  obtain ⟨a, ha⟩ := h
  exact ⟨f a, (map_yields.mpr ⟨a, ⟨ha, rfl⟩, rfl⟩).1⟩

theorem Operation.map_refusal {α β : Type} {f : α → β} {op : Operation α} {c : Connection}
    {e : Refusal} (h : (op.map f c).1 = .error e) : (op c).1 = .error e := by
  unfold Operation.map at h
  rcases hop : op c with ⟨e' | a, c'⟩ <;> rw [hop] at h <;> cases h
  rfl

namespace Connection.Calm

variable {c : Connection}

/-- What cannot be refused is granted. -/
theorem run_granted (hc : c.Calm) (hl : c.tables.Legible)
    (hroom : c.tables.lastDashboard < 4294967296) {own : Dialect.Strategy}
    (hown : own ≠ .duplicateKey) {r : Request} (hr : r.Unfailing c.tables) :
    ∃ a, (r.run .clear own c).1 = .ok a := by
  have hids : ∀ owner, c.tables.orderedIds owner = .ok _ := fun owner =>
    Tables.orderedIds_eq (hc.tables.mem_present _) fun r hr =>
      (hl.kept.board hroom (List.mem_filter.mp hr).1).id
  cases r with
  | findUser id => exact Operation.map_answer (findUser_readable rfl hl.kept id)
  | findDashboard owner id =>
    exact Operation.map_answer ⟨_, findDashboard_readable rfl hl.kept hroom owner id⟩
  | listDashboards owner =>
    exact Operation.map_answer ⟨_, listDashboards_readable rfl hl.kept hroom owner⟩
  | findTag owner key =>
    exact Operation.map_answer ⟨_, findTag_readable rfl hl.kept.sound hl.tags owner key⟩
  | listTags owner =>
    exact Operation.map_answer ⟨_, listTags_readable rfl hl.kept.sound hl.tags owner⟩
  | rankTags owner => exact Operation.map_answer (hc.rankTags hl owner)
  | findUse owner key => exact Operation.map_answer (hc.findUse hl owner key)
  | moveDashboard owner id d =>
    refine Operation.map_answer ?_
    have houtcome := congrArg Prod.fst (moveDashboard_outcome (hc.tables.mem_present _) owner id d)
    rw [hids] at houtcome
    unfold Operation.outcome at houtcome
    dsimp only at houtcome
    rw [houtcome]
    split
    · exact ⟨false, rfl⟩
    · exact ⟨true, rfl⟩
  | reindexDashboards owner =>
    refine Operation.map_answer ⟨(), ?_⟩
    have houtcome := congrArg Prod.fst
      (reindexDashboards_outcome (hc.tables.mem_present _) owner)
    rw [hids] at houtcome
    exact houtcome
  | recordUse strategy owner key moment =>
    have hx := mt (getD_eq_duplicateKey hown).mp hr.1
    obtain ⟨t, ht⟩ := hc.steady.recordUse hx hr.2 key moment
    exact Operation.map_answer ⟨(), ht.1⟩
  | _ => cases hr

theorem orderedIds_without (hc : c.Calm) (hk : c.tables.Kept)
    (hroom : c.tables.lastDashboard < 4294967296) (owner : UserId) (id : UInt32) :
    ∃ ids, Tables.orderedIds { c.tables with
      dashboards := some (c.tables.boardsWithout owner id) } owner = .ok ids := by
  have hleft : Tables.Sound { c.tables with
      dashboards := some (c.tables.boardsWithout owner id) } :=
    hc.tables.withBoards _ c.tables.lastDashboard
  refine ⟨_, Tables.orderedIds_eq (hleft.mem_present _) fun row hrow => ?_⟩
  exact (hk.board hroom (List.mem_filter.mp (List.mem_filter.mp hrow).1).1).id

/-- What the database can do is refused for reasons that lie in the request. -/
theorem run_refused (hc : c.Calm) (hl : c.tables.Legible)
    (husers : c.tables.lastUser < 4294967295) (hboards : c.tables.lastDashboard < 4294967295)
    (hfew : ∀ owner, (c.tables.boardsOf owner).length < 2147483648) {own : Dialect.Strategy}
    (hown : own ≠ .duplicateKey) {r : Request} (hr : r.Sensible c.tables) {e : Refusal}
    (h : (r.run .clear own c).1 = .error e) : e.failure.kind ≠ .internal := by
  have hroom : c.tables.lastDashboard < 4294967296 := by omega
  -- what cannot be refused is not
  have hgranted : r.Unfailing c.tables → e.failure.kind ≠ .internal := by
    intro hu
    obtain ⟨a, ha⟩ := hc.run_granted hl hroom hown hu
    rw [ha] at h
    cases h
  have hanswer : ∀ {α : Type} {op : Operation α} {p : Except Refusal α × Tables},
      (op c).1 = .error e → op.outcome c = p → p.1 = .error e := by
    intro α op p hop hp
    rw [← hp]
    exact hop
  cases r with
  | createUser name =>
    have hnext : nextNumber (c.tables.people.map (·.id)) c.tables.lastUser =
        .ok (c.tables.lastUser + 1) := by
      rw [nextNumber_passed hl.kept.enrolled.start fun u hu => (hl.kept.enrolled.passed u hu).2]
      exact if_pos (by unfold greatestInteger; omega)
    have hrefused := hanswer (Operation.map_refusal h) (hc.createUser_outcome name hnext)
    split at hrefused
    · cases hrefused
      exact fun hk => nomatch hk
    · split at hrefused <;> cases hrefused
      exact fun hk => nomatch hk
  | removeUser id =>
    have hrefused := hanswer (Operation.map_refusal h) (hc.removeUser_outcome id)
    split at hrefused <;> cases hrefused
    exact fun hk => nomatch hk
  | createDashboard draft =>
    have hnext := hl.kept.counted.nextNumber (by unfold greatestInteger; omega)
    have hrefused := hanswer (Operation.map_refusal h)
      (createDashboard_outcome (hc.tables.mem_present _) (hc.tables.mem_present _) draft hnext)
    obtain ⟨order, horder⟩ := hl.kept.nextOrder (hfew draft.owner)
    rw [horder] at hrefused
    dsimp only at hrefused
    rw [if_pos (show c.tables.HasUser (wide draft.owner) from hr)] at hrefused
    split at hrefused <;> cases hrefused
    exact fun hk => nomatch hk
  | removeDashboard owner id =>
    have hrefused := hanswer (Operation.map_refusal h)
      (removeDashboard_outcome (hc.tables.mem_present _) (hc.tables.mem_present _) hc.steady.known
        owner id)
    obtain ⟨ids, hids⟩ := hc.orderedIds_without hl.kept hroom owner id
    dsimp only at hrefused
    split at hrefused
    · rw [hids] at hrefused
      cases hrefused
    · cases hrefused
      exact fun hk => nomatch hk
  | createTag tag =>
    have hrefused := hanswer (Operation.map_refusal h)
      (createTag_outcome hc.steady tag)
    split at hrefused
    · cases hrefused
      exact fun hk => nomatch hk
    · split at hrefused
      · cases hrefused
        exact fun hk => nomatch hk
      · split at hrefused <;> cases hrefused
        exact fun hk => nomatch hk
  | removeTag owner key =>
    have hrefused := hanswer (Operation.map_refusal h) (hc.removeTag_outcome owner key)
    split at hrefused <;> cases hrefused
    exact fun hk => nomatch hk
  | recordUses => cases h
  | recordUse => exact hgranted hr
  | moveDashboard => exact hgranted trivial
  | reindexDashboards => exact hgranted trivial
  | _ => exact hgranted rfl

end Connection.Calm

/-! ## Whole sessions -/

/-- A step within anything but a fault on a column that is not there. If it records a use, the
moment can be told. -/
structure Step.Ordinary (st : Step) : Prop where
  /-- Faults look at columns that are there. -/
  fair : st.Fair
  /-- Moments can be told. -/
  timely : ∀ r, st.act = .ask r → r.Timely

/-- Whatever has been asked of a database and whatever has come of it: as long as numbers of 32 bits
last, an undisturbed request that the database can do at all fails for reasons of its own only,
never for what is stored. What only asks, keeps dashboards in order, or records a use for a user
that is there does not fail. -/
theorem no_internal_failure {past : List Step} (hpast : ∀ st ∈ past, st.Ordinary) {w : Session}
    (hw : ((Session.start .fresh).run past).2 = w) (husers : w.tables.lastUser < 4294967295)
    (hboards : w.tables.lastDashboard < 4294967295)
    (hfew : ∀ owner, (w.tables.boardsOf owner).length < 2147483648) {i : Nat} {k : Client}
    (hi : w.clients i = some k) (r : Request) :
    ∃ result, (w.step ⟨i, .clear, .ask r⟩).1 = .asked result ∧
      (r.Sensible w.tables → ∀ e, result = .error e → e.failure.kind ≠ .internal) ∧
      (r.Unfailing w.tables → ∃ a, result = .ok a) := by
  have hsteady : w.Steady := by
    rw [← hw]
    exact Session.steady_start.run fun st hst => (hpast st hst).fair
  have hlegible : w.tables.Legible := by
    rw [← hw]
    exact Session.run_legible (fun st hst => (hpast st hst).timely) Tables.legible_fresh
  obtain ⟨hc, hanswer, -, -⟩ := hsteady.ask hi r
  have hown := hsteady.own i k hi
  refine ⟨_, hanswer, fun hr e he => ?_, fun hr => ?_⟩
  · exact hc.run_refused hlegible husers hboards hfew hown hr he
  · exact hc.run_granted hlegible (Int.lt_trans hboards (by decide)) hown hr

/-- After a fault has struck and a lock has kept a tag out, everything is answered, and the next use
is recorded. -/
theorem no_internal_failure_after_faults :
    let fault : Fault := ⟨1, .dashboards, .update, some ("id", some (.integer 1)), "no"⟩
    let struck : Setting := { faults := [fault] }
    let locked : Setting := { lock := .shared }
    let past : List Step := [⟨0, .clear, .join .sqlite⟩, ⟨0, .clear, .ask (.createUser "u")⟩,
      ⟨0, .clear, .ask (.createDashboard (.draft 1 "x"))⟩,
      ⟨0, struck, .ask (.reindexDashboards 1)⟩,
      ⟨0, locked, .ask (.createTag ⟨1, "a", "", .noValue⟩)⟩,
      ⟨0, .clear, .ask (.recordUse (some .replace) 1 "a" ⟨1, 0, by decide⟩)⟩]
    let w := ((Session.start .fresh).run past).2
    ∀ r ∈ [Request.moveDashboard 1 1 .up, .listDashboards 1, .rankTags 1, .findUse 1 "a",
        .recordUse none 1 "b" ⟨2, 0, by decide⟩],
      ∃ a, (w.step ⟨0, .clear, .ask r⟩).1 = .asked (.ok a) := by
  intro fault struck locked past w r hr
  have hpast : ∀ st ∈ past, st.Ordinary := by
    have hjoin : Step.Ordinary ⟨0, .clear, .join .sqlite⟩ :=
      ⟨List.forall_mem_nil _, fun r h => nomatch h⟩
    have hask : ∀ (s : Setting) (r : Request), (∀ f ∈ s.faults, f.strayColumn? = none) →
        r.Timely → Step.Ordinary ⟨0, s, .ask r⟩ :=
      fun s r hs hr => ⟨hs, fun r' h => by cases h; exact hr⟩
    simp only [past, List.forall_mem_cons]
    exact ⟨hjoin, hask _ _ (by decide) trivial, hask _ _ (by decide) trivial,
      hask _ _ (by decide +kernel) trivial, hask _ _ (by decide) trivial, hask _ _ (by decide) rfl,
      List.forall_mem_nil _⟩
  have hboards : w.tables.boards.length = 1 := by decide +kernel
  have hfew : ∀ owner, (w.tables.boardsOf owner).length < 2147483648 := by
    intro owner
    have hle : (w.tables.boardsOf owner).length ≤ w.tables.boards.length :=
      List.length_filter_le _ _
    omega
  have hopen : (w.clients 0).isSome = true := by decide +kernel
  obtain ⟨k, hi⟩ := Option.isSome_iff_exists.mp hopen
  have huser : w.tables.HasUser (wide 1) := by decide +kernel
  obtain ⟨result, hresult, -, hgranted⟩ :=
    no_internal_failure hpast rfl (by decide +kernel) (by decide +kernel) hfew hi r
  have hunfailing : r.Unfailing w.tables := by
    simp only [List.mem_cons, List.not_mem_nil, or_false] at hr
    rcases hr with rfl | rfl | rfl | rfl | rfl
    · trivial
    · rfl
    · rfl
    · rfl
    · exact ⟨by decide, huser⟩
  obtain ⟨a, rfl⟩ := hgranted hunfailing
  exact ⟨a, hresult⟩

end Pinboard.Store
