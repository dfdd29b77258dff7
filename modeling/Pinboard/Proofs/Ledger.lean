import Pinboard.Proofs.Millis
import Pinboard.Proofs.Session
import Pinboard.Proofs.Uses

/-!
# The ledger over whole sessions

What the ledger of recent uses holds after a session is told by the last event that concerned the
key: a use that was recorded while its user was there, or the removal of the tag or of the user.
This module is about sessions that nothing disturbs. Their invariant is `Session.Sound`: the tables
are there, their keys are obeyed, and no store remembers a fault.
-/

namespace Pinboard.Store

/-! ## Sound tables -/

namespace Tables

/-- All tables are there, and their keys are obeyed. -/
structure Sound (t : Tables) : Prop where
  /-- The tables are those of a fresh database. -/
  present : t.present = fresh.present
  /-- The keys of the ledger are obeyed. -/
  keyed : t.Keyed

theorem sound_fresh : Sound fresh := by
  refine ⟨rfl, List.nodup_nil, fun r hr => ?_⟩
  cases hr

theorem has_of_mem_present {t : Tables} {table : Table} (h : table ∈ t.present) :
    t.has table = true := by
  unfold present at h
  rcases List.mem_append.mp h with h | h
  · split at h
    · rename_i husers
      rw [List.mem_singleton.mp h]
      exact husers
    · cases h
  · exact (List.mem_filter.mp h).2

theorem Sound.mem_present {t : Tables} (h : t.Sound) (table : Table) : table ∈ t.present := by
  rw [h.present]
  cases table <;> decide

theorem Sound.has {t : Tables} (h : t.Sound) (table : Table) : t.has table = true :=
  has_of_mem_present (h.mem_present table)

theorem Sound.users_eq {t : Tables} (h : t.Sound) : ∃ rows, t.users = some rows :=
  Option.isSome_iff_exists.mp (h.has .users)

theorem recents_eq {t : Tables} (h : .recents ∈ t.present) : t.recents = some t.uses := by
  obtain ⟨rows, hrows⟩ := Option.isSome_iff_exists.mp (has_of_mem_present h)
  rw [uses, hrows]
  rfl

theorem Sound.recents_eq {t : Tables} (h : t.Sound) : t.recents = some t.uses :=
  Tables.recents_eq (h.mem_present .recents)

end Tables

theorem UsePut.sound {row : RecentRow} {t t' : Tables} (h : UsePut row t t') (hs : t.Sound) :
    t'.Sound :=
  ⟨h.present.trans hs.present, h.keyed hs.keyed⟩

theorem Effect.sound {t t' : Tables} {r : Request} {a : Reply} (h : Effect t r a t')
    (hs : t.Sound) : t'.Sound :=
  ⟨h.present.trans hs.present, h.keyed hs.keyed⟩

/-! ## Undisturbed requests -/

/-- Where there are no faults, a need is only not met for want of a table. -/
def Doubtful (needs : Schema → Except StorageError Unit) : Prop :=
  ∀ k e, k.faults = [] → needs k = .error e → e.isDoubtful = true

theorem requireTable_doubtful {table : Table} {k : Schema} {e : StorageError}
    (h : requireTable k table = .error e) : e.isDoubtful = true := by
  unfold requireTable at h
  split at h
  · cases h
  · cases h
    rfl

theorem requireParent_doubtful {k : Schema} {e : StorageError} (h : requireParent k = .error e) :
    e.isDoubtful = true := by
  unfold requireParent at h
  split at h
  · cases h
  · cases h
    rfl

theorem sound_of_no_stray {k : Schema} (hk : ∀ f ∈ k.faults, f.strayColumn? = none)
    (table : Table) (event : RowEvent) : k.sound table event = .ok () := by
  have hnone : (k.faults.filter fun f => f.table == table && f.event == event).findSome?
      Fault.strayColumn? = none := by
    rw [List.findSome?_eq_none_iff]
    intro f hf
    exact hk f (List.mem_filter.mp hf).1
  unfold Schema.sound
  rw [hnone]

theorem sound_of_no_faults {k : Schema} (hk : k.faults = []) (table : Table) (event : RowEvent) :
    k.sound table event = .ok () :=
  sound_of_no_stray (hk ▸ List.forall_mem_nil _) table event

/-- Where no fault gets in the way, a statement is only refused for want of a table. -/
theorem doubtful_of_requireFor {k : Schema} (hk : ∀ f ∈ k.faults, f.strayColumn? = none)
    {table : Table} {event : RowEvent} {e : StorageError}
    (h : requireFor k table event = .error e) : e.isDoubtful = true := by
  unfold requireFor at h
  rcases except_bind_eq_error.mp h with h | ⟨_, -, h⟩
  · exact requireTable_doubtful h
  · by_cases hparent : table ≠ .users ∧ event ≠ .update
    · rw [if_pos hparent] at h
      rcases except_bind_eq_error.mp h with h | ⟨_, -, h⟩
      · exact requireParent_doubtful h
      · rw [sound_of_no_stray hk] at h
        cases h
    · rw [if_neg hparent] at h
      have hsound : k.sound table event = .error e := h
      rw [sound_of_no_stray hk] at hsound
      cases hsound

theorem requireFor_doubtful (table : Table) (event : RowEvent) :
    Doubtful (requireFor · table event) :=
  fun _ _ hk h => doubtful_of_requireFor (hk ▸ List.forall_mem_nil _) h

theorem doubtful_of_requireRemoval {k : Schema} (hk : ∀ f ∈ k.faults, f.strayColumn? = none)
    {e : StorageError} (h : requireRemoval k = .error e) : e.isDoubtful = true := by
  rcases except_bind_eq_error.mp h with h | ⟨_, -, h⟩
  · exact doubtful_of_requireFor hk h
  · have hcascade : requireCascade k = .ok () :=
      forM_eq_ok.mpr fun table _ => sound_of_no_stray hk table .delete
    rw [hcascade] at h
    cases h

theorem requireRemoval_doubtful : Doubtful requireRemoval :=
  fun _ _ hk h => doubtful_of_requireRemoval (hk ▸ List.forall_mem_nil _) h

theorem doubtful_of_requireRecent {strategy : Dialect.Strategy} (hx : strategy ≠ .duplicateKey)
    {k : Schema} (hk : ∀ f ∈ k.faults, f.strayColumn? = none) {e : StorageError}
    (h : requireRecent strategy k = .error e) : e.isDoubtful = true := by
  cases strategy with
  | replace => exact doubtful_of_requireFor hk h
  | duplicateKey => exact absurd rfl hx
  | conflictTarget =>
    rcases except_bind_eq_error.mp h with h | ⟨_, -, h⟩
    · exact doubtful_of_requireFor hk h
    · rw [sound_of_no_stray hk] at h
      cases h

theorem requireRecent_doubtful {strategy : Dialect.Strategy} (hx : strategy ≠ .duplicateKey) :
    Doubtful (requireRecent strategy) :=
  fun _ _ hk h => doubtful_of_requireRecent hx (hk ▸ List.forall_mem_nil _) h

/-- Where the tables can be read, what is amiss in what a connection remembers makes it look. -/
theorem prepares_readable {s : Setting} {c : Connection}
    {needs : Schema → Except StorageError Unit} (hread : s.beginReading = .ok ())
    (hd : ∀ e, needs c.known = .error e → e.isDoubtful = true)
    (hneeds : needs (c.tables.schema s) = .ok ()) : c.Prepares s needs := by
  unfold Connection.Prepares Connection.prepare
  cases h : needs c.known with
  | ok u => rfl
  | error e =>
    have hlook : (e.isDoubtful && s.admitsReading) = true := by
      rw [hd e h, Setting.admitsReading, hread]
      rfl
    dsimp only
    rw [if_pos hlook]
    exact hneeds

/-- A question that needs tables only is answered by the tables. -/
theorem inspect_readable {α : Type} {s : Setting} {c : Connection}
    {needs : Schema → Except StorageError Unit} {question : Tables → Except Refusal α}
    (hread : s.beginReading = .ok ())
    (hd : ∀ {k e}, needs k = .error e → e.isDoubtful = true)
    (hneeds : needs (c.tables.schema s) = .ok ()) :
    (inspect s needs question c).1 = question c.tables :=
  inspect_answer (prepares_readable hread (fun _ h => hd h) hneeds) hread hneeds

theorem prepares_clear {c : Connection} {needs : Schema → Except StorageError Unit}
    (hd : ∀ e, needs c.known = .error e → e.isDoubtful = true)
    (hneeds : needs (c.tables.schema .clear) = .ok ()) : c.Prepares .clear needs :=
  prepares_readable rfl hd hneeds

theorem Tables.Sound.schema_clear {t : Tables} (hs : t.Sound) :
    t.schema .clear = ⟨fresh.present, []⟩ := by
  unfold Tables.schema
  rw [hs.present]
  rfl

section Present

variable {k : Schema}

theorem requireTable_of_mem {table : Table} (h : table ∈ k.tables) :
    requireTable k table = .ok () :=
  if_pos (List.contains_iff_mem.mpr h)

theorem inspect_table {α : Type} {s : Setting} {c : Connection} {table : Table}
    {question : Tables → Except Refusal α} (hread : s.beginReading = .ok ())
    (htable : table ∈ c.tables.present) :
    (inspect s (requireTable · table) question c).1 = question c.tables :=
  inspect_readable hread requireTable_doubtful (requireTable_of_mem htable)

/-- Where a table and that of the users are there and no fault gets in the way, every statement on
the table can be prepared. -/
theorem requireFor_of_mem {table : Table} (htable : table ∈ k.tables) (husers : .users ∈ k.tables)
    (hfaults : ∀ f ∈ k.faults, f.strayColumn? = none) (event : RowEvent) :
    requireFor k table event = .ok () := by
  have hparent : requireParent k = .ok () := if_pos (List.contains_iff_mem.mpr husers)
  unfold requireFor
  rw [requireTable_of_mem htable, hparent, sound_of_no_stray hfaults]
  split <;> rfl

/-- Where all tables are there and no fault gets in the way, every statement can be prepared. -/
theorem requireFor_of_all (htables : ∀ table, table ∈ k.tables)
    (hfaults : ∀ f ∈ k.faults, f.strayColumn? = none) (table : Table) (event : RowEvent) :
    requireFor k table event = .ok () :=
  requireFor_of_mem (htables table) (htables .users) hfaults event

theorem requireRecent_of_all {strategy : Dialect.Strategy} (hx : strategy ≠ .duplicateKey)
    (htables : ∀ table, table ∈ k.tables) (hfaults : ∀ f ∈ k.faults, f.strayColumn? = none) :
    requireRecent strategy k = .ok () := by
  cases strategy with
  | replace => exact requireFor_of_all htables hfaults .recents .insert
  | duplicateKey => exact absurd rfl hx
  | conflictTarget =>
    unfold requireRecent
    rw [requireFor_of_all htables hfaults, sound_of_no_stray hfaults]
    rfl

end Present

/-- All tables are there, and the connection remembers no fault on a column that is not. -/
structure Connection.Steady (c : Connection) : Prop where
  /-- All tables are there. -/
  tables : ∀ table, table ∈ c.tables.present
  /-- The faults that are remembered do not get in the way of a statement. -/
  known : ∀ f ∈ c.known.faults, f.strayColumn? = none

namespace Connection.Steady

variable {c : Connection} {strategy : Dialect.Strategy} {owner : UserId}

theorem of_sound (hk : c.known.faults = []) (hs : c.tables.Sound) : c.Steady :=
  ⟨hs.mem_present, hk ▸ List.forall_mem_nil _⟩

theorem has (hc : c.Steady) (table : Table) : c.tables.has table = true :=
  Tables.has_of_mem_present (hc.tables table)

theorem recents_eq (hc : c.Steady) : c.tables.recents = some c.tables.uses :=
  Tables.recents_eq (hc.tables .recents)

/-- The use of a key by a user that is there is recorded. -/
theorem recordUse (hc : c.Steady) (hx : strategy ≠ .duplicateKey)
    (howner : c.tables.HasUser (wide owner)) (key : String) (moment : Time.Instant) :
    ∃ t, (Store.recordUse .clear strategy owner key moment).Yields c () t := by
  have hneeds : requireRecent strategy (c.tables.schema .clear) = .ok () :=
    requireRecent_of_all hx hc.tables (List.forall_mem_nil _)
  have hready : c.tables.ready .clear .recents .insert = .ok () := by
    unfold Tables.ready
    rw [requireFor_of_all hc.tables (List.forall_mem_nil _)]
    rfl
  obtain ⟨users, husers⟩ := Option.isSome_iff_exists.mp (hc.has .users)
  unfold Tables.HasUser at howner
  rw [husers, Option.getD_some] at howner
  have hput : ∃ t, putRecent .clear strategy (.ofUse owner key moment) c.tables = .ok ((), t) := by
    cases strategy with
    | replace =>
      exact ⟨_, replaceRecent_eq_ok.mpr
        ⟨hready, rfl, _, _, hc.recents_eq, husers, howner, rfl⟩⟩
    | duplicateKey => exact absurd rfl hx
    | conflictTarget =>
      have hsound : (c.tables.schema .clear).sound .recents .update = .ok () :=
        sound_of_no_faults rfl _ _
      cases hold : c.tables.uses.find? (·.isFor (wide owner) (.text key)) with
      | some old =>
        exact ⟨_, mergeRecent_eq_ok.mpr ⟨hready, hsound, rfl, _, _, hc.recents_eq, husers,
          Or.inl ⟨old, hold, rfl, rfl⟩⟩⟩
      | none =>
        exact ⟨_, mergeRecent_eq_ok.mpr ⟨hready, hsound, rfl, _, _, hc.recents_eq, husers,
          Or.inr ⟨hold, howner, rfl⟩⟩⟩
  obtain ⟨t, hput⟩ := hput
  have hprepares : c.Prepares .clear (requireRecent strategy) :=
    prepares_clear (fun _ h => doubtful_of_requireRecent hx hc.known h) hneeds
  exact ⟨t, autocommit_yields.mpr ⟨hprepares, rfl, rfl, hneeds, Steps.change_eq_ok.mpr hput, rfl⟩⟩

end Connection.Steady

section Granted

variable {c : Connection}

/-- A user that is there is removed. -/
theorem removeUser_granted (hk : c.known.faults = []) (hs : c.tables.Sound) {id : UserId}
    (hid : c.tables.HasUser (wide id)) : ∃ t, (removeUser .clear id).Yields c () t := by
  obtain ⟨users, husers⟩ := hs.users_eq
  have hneeds : requireRemoval (c.tables.schema .clear) = .ok () := by
    rw [hs.schema_clear]
    rfl
  unfold Tables.HasUser at hid
  rw [husers, Option.getD_some] at hid
  obtain ⟨u, hu, huid⟩ := hid
  have hgoes : u ∈ users.filter (·.id == wide id) :=
    List.mem_filter.mpr ⟨hu, by simpa using huid⟩
  have hcount : (users.filter (·.id == wide id)).length ≠ 0 :=
    Nat.ne_of_gt (List.length_pos_of_mem hgoes)
  refine ⟨_, Operation.judge_yields.mpr ⟨_, autocommit_yields.mpr
    ⟨prepares_clear (requireRemoval_doubtful _ · hk) hneeds, rfl, rfl, hneeds,
      Steps.changeMany_eq_ok.mpr (deleteUser_eq_ok.mpr ⟨hneeds, rfl, users, husers,
        fun _ _ _ => rfl, rfl, Or.inr ⟨hcount, fun _ _ _ _ => rfl, rfl⟩⟩), rfl⟩, ?_⟩⟩
  rw [if_neg hcount]

end Granted

/-! ## What a request does to the ledger -/

/-- What recording a use leaves in the ledger: its moment for its key if the user is there, and what
was there for every other. -/
theorem recordUse_useOf? {strategy : Dialect.Strategy} {c : Connection}
    (hk : c.known.faults = []) (hs : c.tables.Sound) (hx : strategy ≠ .duplicateKey) (o : UserId)
    (k : String) (moment : Time.Instant)
    (owner : Int) (key : Cell) :
    (recordUse .clear strategy o k moment c).2.tables.useOf? owner key =
      if c.tables.HasUser (wide o) ∧ owner = wide o ∧ key = .text k then
        some (.integer moment.millis)
      else c.tables.useOf? owner key := by
  by_cases huser : c.tables.HasUser (wide o)
  · obtain ⟨t, ht⟩ := (Connection.Steady.of_sound hk hs).recordUse hx huser k moment
    rw [ht.2, (recordUse_spec ht).useOf?]
    have hfor : (RecentRow.ofUse o k moment).isFor owner key = true ↔
        c.tables.HasUser (wide o) ∧ owner = wide o ∧ key = .text k := by
      rw [RecentRow.isFor_iff]
      constructor
      · rintro ⟨rfl, rfl⟩
        exact ⟨huser, rfl, rfl⟩
      · rintro ⟨-, rfl, rfl⟩
        exact ⟨rfl, rfl⟩
    simp only [hfor]
    rfl
  · rw [if_neg fun h => huser h.1]
    cases h : (recordUse .clear strategy o k moment c).1 with
    | error r => rw [recordUse_atomic _ _ _ _ _ c r h]
    | ok u => exact absurd ((recordUse_spec ⟨h, rfl⟩).hasUser hs.keyed) huser

/-- Recording a use leaves the users as they were and the ledger sound. -/
theorem recordUse_keeps (strategy : Dialect.Strategy) {c : Connection} (hs : c.tables.Sound)
    (o : UserId) (k : String) (moment : Time.Instant) :
    (recordUse .clear strategy o k moment c).2.tables.Sound ∧
      (recordUse .clear strategy o k moment c).2.tables.users = c.tables.users := by
  cases h : (recordUse .clear strategy o k moment c).1 with
  | error r =>
    rw [recordUse_atomic _ _ _ _ _ c r h]
    exact ⟨hs, rfl⟩
  | ok u =>
    have hput := recordUse_spec ⟨h, rfl⟩
    refine ⟨hput.sound hs, ?_⟩
    obtain ⟨rows, ht⟩ := hput.only_recents
    rw [ht]

theorem recordUse_forgets (strategy : Dialect.Strategy) {c : Connection}
    (hk : c.known.faults = []) (o : UserId) (k : String) (moment : Time.Instant) :
    (recordUse .clear strategy o k moment c).2.known.faults = [] := by
  rcases recordUse_learns .clear strategy o k moment c with h | h
  · exact h.trans hk
  · exact h

/-- What recording uses leaves in the ledger. -/
theorem recordUses_useOf? {strategy : Dialect.Strategy} {c : Connection}
    (hk : c.known.faults = []) (hs : c.tables.Sound) (hx : strategy ≠ .duplicateKey) (o : UserId)
    (moment : Time.Instant) (ks : List String)
    (owner : Int) (key : Cell) :
    (recordUses .clear strategy o moment ks c).2.tables.useOf? owner key =
      if c.tables.HasUser (wide o) ∧ owner = wide o ∧ ∃ k ∈ ks, key = .text k then
        some (.integer moment.millis)
      else c.tables.useOf? owner key := by
  induction ks generalizing c with
  | nil => simp [recordUses]
  | cons k ks ih =>
    have hfirst := recordUse_useOf? hk hs hx o k moment owner key
    obtain ⟨hs1, husers⟩ := recordUse_keeps strategy hs o k moment
    have hk1 := recordUse_forgets strategy hk o k moment
    have hrest := ih hk1 hs1
    have htables : (recordUses .clear strategy o moment (k :: ks) c).2 =
        (recordUses .clear strategy o moment ks (recordUse .clear strategy o k moment c).2).2 := by
      rw [recordUses]
      rcases recordUse .clear strategy o k moment c with ⟨r | u, c1⟩ <;> rfl
    have huser : (recordUse .clear strategy o k moment c).2.tables.HasUser (wide o) ↔
        c.tables.HasUser (wide o) := by
      unfold Tables.HasUser
      rw [husers]
    rw [htables, hrest, hfirst]
    simp only [huser, List.mem_cons, exists_eq_or_imp]
    by_cases h : c.tables.HasUser (wide o) ∧ owner = wide o
    · by_cases h1 : key = .text k <;> simp [h.1, h.2, h1]
    · have hnot : ∀ p : Prop, ¬ (c.tables.HasUser (wide o) ∧ owner = wide o ∧ p) :=
        fun p hp => h ⟨hp.1, hp.2.1⟩
      simp only [hnot, if_false]

/-! ## Events -/

/-- What concerns a key of a user in the ledger. -/
inductive LedgerEvent where
  /-- The key was used. -/
  | used (moment : Time.Instant)
  /-- The use of the key was forgotten. -/
  | forgotten
  deriving DecidableEq

/-- What the ledger holds after an event. -/
def LedgerEvent.cell? : LedgerEvent → Option Cell
  | used moment => some (.integer moment.millis)
  | forgotten => none

/-- The event that a request is for a key of a user, with the tables that it meets and its answer. A
use counts while the user is there, and the removal of a tag where it was granted. -/
def Request.event? (owner : UserId) (key : String) (t : Tables) (answer : Except Refusal Reply) :
    Request → Option LedgerEvent
  | recordUse _ o k moment =>
    if t.HasUser (wide o) ∧ owner = o ∧ key = k then some (.used moment) else none
  | recordUses _ o ks moment =>
    if t.HasUser (wide o) ∧ owner = o ∧ key ∈ ks then some (.used moment) else none
  | removeTag o k => if answer.isOk ∧ owner = o ∧ key = k then some .forgotten else none
  | removeUser o => if owner = o then some .forgotten else none
  | _ => none

/-- Can the uses that a request records be recorded and read again? -/
def Request.Recordable : Request → Prop
  | recordUse strategy _ _ moment =>
    strategy ≠ some .duplicateKey ∧ (Time.Instant.ofMillis? moment.millis).isSome
  | recordUses strategy _ _ moment =>
    strategy ≠ some .duplicateKey ∧ (Time.Instant.ofMillis? moment.millis).isSome
  | _ => True

theorem readable_of_event? {owner : UserId} {key : String} {t : Tables}
    {answer : Except Refusal Reply} {r : Request} {moment : Time.Instant} (hr : r.Recordable)
    (h : r.event? owner key t answer = some (.used moment)) :
    (Time.Instant.ofMillis? moment.millis).isSome := by
  unfold Request.event? at h
  split at h
  · split at h
    · cases h
      exact hr.2
    · cases h
  · split at h
    · cases h
      exact hr.2
    · cases h
  · split at h <;> cases h
  · split at h <;> cases h
  · cases h

/-- Nothing stands in the way of a step, and what it records can be read again. -/
structure Step.Calm (st : Step) : Prop where
  /-- No fault is set, and nobody holds a lock. -/
  clear : st.setting = .clear
  /-- What is recorded can be read again. -/
  recordable : ∀ r, st.act = .ask r → r.Recordable

namespace Session

/-- The event that a step is for a key of a user, if the store that it concerns is open. -/
def event? (owner : UserId) (key : String) (w : Session) (st : Step) : Option LedgerEvent :=
  match st.act, (w.step st).1 with
  | .ask r, .asked answer => r.event? owner key w.tables answer
  | _, _ => none

/-- The events of a session for a key of a user, in order. -/
def events (owner : UserId) (key : String) : Session → List Step → List LedgerEvent
  | _, [] => []
  | w, st :: steps => (w.event? owner key st).toList ++ events owner key (w.step st).2 steps

end Session

/-- After an undisturbed request, the ledger holds what its event says, or what it held before. -/
theorem run_useOf? {r : Request} {own : Dialect.Strategy} {c : Connection}
    (hk : c.known.faults = []) (hs : c.tables.Sound) (hown : own ≠ .duplicateKey)
    (hr : r.Recordable) (owner : UserId) (key : String) :
    (r.run .clear own c).2.tables.useOf? (wide owner) (.text key) =
      match r.event? owner key c.tables (r.run .clear own c).1 with
      | some e => e.cell?
      | none => c.tables.useOf? (wide owner) (.text key) := by
  have hother : r.changesLedger = false → (r.run .clear own c).2.tables.useOf? (wide owner)
      (.text key) = c.tables.useOf? (wide owner) (.text key) := by
    intro hl
    unfold Tables.useOf? Tables.uses
    rcases run_cases .clear own r c with ⟨a, -, h⟩ | ⟨-, h⟩
    · rw [h.recents_eq hl]
    · rw [h]
  have hstrategy : ∀ strategy : Option Dialect.Strategy, strategy ≠ some .duplicateKey →
      strategy.getD own ≠ .duplicateKey := fun _ => mt (getD_eq_duplicateKey hown).mp
  have hwide : ∀ o : UserId, wide owner = wide o ↔ owner = o :=
    fun o => ⟨wide_injective, congrArg wide⟩
  cases r with
  | recordUse strategy o k moment =>
    show ((recordUse .clear (strategy.getD own) o k moment).map _ c).2.tables.useOf? _ _ = _
    rw [Operation.map_tables, recordUse_useOf? hk hs (hstrategy _ hr.1)]
    simp only [hwide, Cell.text.injEq, Request.event?]
    split <;> rfl
  | recordUses strategy o ks moment =>
    show (recordUses .clear (strategy.getD own) o moment ks c).2.tables.useOf? _ _ = _
    rw [recordUses_useOf? hk hs (hstrategy _ hr.1)]
    simp only [hwide, Cell.text.injEq, Request.event?, exists_eq_right']
    split <;> rfl
  | removeTag o k =>
    rcases run_cases .clear own (.removeTag o k) c with ⟨a, ha, h⟩ | ⟨⟨e, he⟩, h⟩
    · rw [h.removeTag_useOf?, ha]
      simp only [hwide, Cell.text.injEq, Request.event?, Except.isOk, Except.toBool, true_and]
      split <;> rfl
    · rw [h, he]
      simp [Request.event?, Except.isOk, Except.toBool]
  | removeUser o =>
    rcases run_cases .clear own (.removeUser o) c with ⟨a, ha, h⟩ | ⟨⟨e, he⟩, h⟩
    · rw [h.removeUser_useOf?]
      simp only [hwide, Request.event?]
      split <;> rfl
    · -- the user was not there, so the ledger held nothing for it
      have hgone : ¬ c.tables.HasUser (wide o) := by
        intro huser
        obtain ⟨t, ht⟩ := removeUser_granted hk hs huser
        have hmap := (Operation.map_yields (f := fun _ => Reply.done)).mpr ⟨_, ht, rfl⟩
        rw [Request.run, hmap.1] at he
        cases he
      rw [h]
      by_cases ho : owner = o
      · subst ho
        simp only [Request.event?, if_true, LedgerEvent.cell?]
        exact hs.keyed.useOf?_eq_none hgone _
      · simp only [Request.event?, ho, if_false]
  | createUser => exact hother rfl
  | findUser => exact hother rfl
  | createDashboard => exact hother rfl
  | findDashboard => exact hother rfl
  | listDashboards => exact hother rfl
  | moveDashboard => exact hother rfl
  | reindexDashboards => exact hother rfl
  | removeDashboard => exact hother rfl
  | createTag => exact hother rfl
  | findTag => exact hother rfl
  | listTags => exact hother rfl
  | rankTags => exact hother rfl
  | findUse => exact hother rfl

/-! ## Whole sessions -/

theorem Tables.Sound.addMissing {t : Tables} (hs : t.Sound) : t.addMissing = t := by
  obtain ⟨users, husers⟩ := hs.users_eq
  obtain ⟨dashboards, hdashboards⟩ := Option.isSome_iff_exists.mp (hs.has .dashboards)
  obtain ⟨tags, htags⟩ := Option.isSome_iff_exists.mp (hs.has .tags)
  obtain ⟨recents, hrecents⟩ := Option.isSome_iff_exists.mp (hs.has .recents)
  have hchildren : [Table.recents, .tags, .dashboards].filter (!t.has ·) = [] := by
    simp [hs.has]
  unfold Tables.addMissing
  rw [hchildren, husers, hdashboards, htags, hrecents]
  cases t
  simp_all

namespace Session

/-- The tables are sound, no store remembers a fault, and each can record uses. -/
structure Sound (w : Session) : Prop where
  /-- The tables are sound. -/
  tables : w.tables.Sound
  /-- No store remembers a fault, and each has a way of recording that the database knows. -/
  clients : ∀ i k, w.clients i = some k → k.known.faults = [] ∧ k.own ≠ .duplicateKey

theorem sound_start : (start .fresh).Sound := by
  refine ⟨Tables.sound_fresh, fun i k h => ?_⟩
  cases h

theorem Sound.seat {w : Session} (hw : w.Sound) {i : Nat} {k : Option Client} {t : Tables}
    (ht : t.Sound) (hk : ∀ k' ∈ k, k'.known.faults = [] ∧ k'.own ≠ .duplicateKey) :
    (w.seat i k t).Sound := by
  refine ⟨ht, fun j k' hj => ?_⟩
  unfold Session.seat at hj
  dsimp only at hj
  split at hj
  · exact hk k' hj
  · exact hw.clients j k' hj

theorem Sound.join {w : Session} (hw : w.Sound) (i : Nat) (d : Dialect) :
    (w.join i .clear d).2.Sound ∧ (w.join i .clear d).2.tables = w.tables := by
  have htables := addTables_tables .clear ⟨w.tables, {}, 0⟩
  rw [show Tables.addMissing _ = w.tables from hw.tables.addMissing, or_self] at htables
  have hknown : (addTables .clear ⟨w.tables, {}, 0⟩).2.known.faults = [] := by
    rcases addTables_learns .clear ⟨w.tables, {}, 0⟩ with h | h <;> exact h
  unfold Session.join
  generalize addTables .clear ⟨w.tables, {}, 0⟩ = result at htables hknown ⊢
  rcases result with ⟨r | u, c⟩
  · exact ⟨hw.seat hw.tables (by simp), rfl⟩
  · dsimp only at htables hknown ⊢
    rw [htables]
    cases hd : requireRecent d.strategy c.known with
    | error e => exact ⟨hw.seat hw.tables (by simp), rfl⟩
    | ok v =>
      refine ⟨hw.seat hw.tables fun k hk => ?_, rfl⟩
      cases hk
      exact ⟨hknown, known_of_requireRecent hd⟩

theorem Sound.ask {w : Session} (hw : w.Sound) {i : Nat} {k : Client}
    (hi : w.clients i = some k) {r : Request} (hr : r.Recordable) :
    (w.ask i k .clear r).2.Sound ∧ ∀ owner key,
      (w.ask i k .clear r).2.tables.useOf? (wide owner) (.text key) =
        match r.event? owner key w.tables (w.ask i k .clear r).1 with
        | some e => e.cell?
        | none => w.tables.useOf? (wide owner) (.text key) := by
  obtain ⟨hk, hown⟩ := hw.clients i k hi
  have htables : (r.run .clear k.own ⟨w.tables, k.known, k.changed⟩).2.tables.Sound := by
    rcases run_cases .clear k.own r ⟨w.tables, k.known, k.changed⟩ with ⟨a, -, h⟩ | ⟨-, h⟩
    · exact h.sound hw.tables
    · rw [h]
      exact hw.tables
  have hknown : (r.run .clear k.own ⟨w.tables, k.known, k.changed⟩).2.known.faults = [] := by
    rcases run_learns .clear k.own r ⟨w.tables, k.known, k.changed⟩ with h | h
    · exact h.trans hk
    · exact h
  refine ⟨hw.seat htables fun k' hk' => ?_, fun owner key => ?_⟩
  · cases hk'
    exact ⟨hknown, hown⟩
  · rw [ask_tables]
    exact run_useOf? (c := ⟨w.tables, k.known, k.changed⟩) hk hw.tables hown hr owner key

/-- A step that nothing disturbs keeps the session sound, and leaves in the ledger what its event
says. -/
theorem Sound.step {w : Session} (hw : w.Sound) {st : Step} (hst : st.Calm) :
    (w.step st).2.Sound ∧ ∀ owner key,
      (w.step st).2.tables.useOf? (wide owner) (.text key) =
        match w.event? owner key st with
        | some e => e.cell?
        | none => w.tables.useOf? (wide owner) (.text key) := by
  obtain ⟨i, s, act⟩ := st
  obtain rfl : s = .clear := hst.clear
  cases act with
  | join d =>
    obtain ⟨hsound, htables⟩ := hw.join i d
    refine ⟨hsound, fun owner key => ?_⟩
    show (w.join i .clear d).2.tables.useOf? _ _ = _
    rw [htables]
    rfl
  | ask r =>
    unfold event? Session.step
    dsimp only
    cases hi : w.clients i with
    | none => exact ⟨hw, fun owner key => rfl⟩
    | some k => exact hw.ask hi (hst.recordable r rfl)
  | look =>
    unfold event? Session.step
    dsimp only
    cases hi : w.clients i with
    | none => exact ⟨hw, fun owner key => rfl⟩
    | some k =>
      refine ⟨hw.seat hw.tables fun k' hk' => ?_, fun owner key => rfl⟩
      cases hk'
      exact ⟨rfl, (hw.clients i k hi).2⟩

/-- After a session that nothing disturbs, the ledger holds what the last event says. -/
theorem Sound.run {w : Session} (hw : w.Sound) {steps : List Step}
    (hsteps : ∀ st ∈ steps, st.Calm) (owner : UserId) (key : String) :
    (w.run steps).2.Sound ∧ (w.run steps).2.tables.useOf? (wide owner) (.text key) =
      match (w.events owner key steps).getLast? with
      | some e => e.cell?
      | none => w.tables.useOf? (wide owner) (.text key) := by
  induction steps generalizing w with
  | nil => exact ⟨hw, rfl⟩
  | cons st steps ih =>
    obtain ⟨hcalm, hrest⟩ := List.forall_mem_cons.mp hsteps
    obtain ⟨hsound, hone⟩ := hw.step hcalm
    obtain ⟨hfinal, hlast⟩ := ih hsound hrest
    rw [run_cons]
    refine ⟨hfinal, ?_⟩
    rw [hlast, events, List.getLast?_append]
    cases (events owner key (w.step st).2 steps).getLast? with
    | some e => rfl
    | none =>
      rw [hone]
      cases w.event? owner key st <;> rfl

/-- The moment of a use that counts can be read again. -/
theorem readable_of_mem_events {w : Session} {steps : List Step}
    (hsteps : ∀ st ∈ steps, st.Calm) {owner : UserId} {key : String} {moment : Time.Instant}
    (h : .used moment ∈ w.events owner key steps) :
    (Time.Instant.ofMillis? moment.millis).isSome := by
  induction steps generalizing w with
  | nil => cases h
  | cons st steps ih =>
    obtain ⟨hcalm, hrest⟩ := List.forall_mem_cons.mp hsteps
    rw [events, List.mem_append] at h
    rcases h with h | h
    · rw [Option.mem_toList] at h
      unfold event? at h
      split at h
      · rename_i r answer hr hanswer
        exact readable_of_event? (hcalm.recordable r hr) h
      · cases h
    · exact ih hrest h

end Session

/-! ## Reading the ledger -/

section Read

variable {c : Connection} {owner : UserId} {key : String}

/-- Whatever a store remembers, it reads what the ledger holds, if it can read. -/
theorem findUse_readable {s : Setting} (hread : s.beginReading = .ok ()) (hs : c.tables.Sound) :
    (findUse s owner key c).1 =
    match c.tables.useOf? (wide owner) (.text key) with
    | none => .ok none
    | some cell =>
      match cell.readInteger 0 "last_used_at" with
      | .error e => .error (.storage e)
      | .ok ms =>
        match Time.Instant.ofMillis? ms with
        | some moment => .ok (some ⟨owner, key, moment⟩)
        | none => .error (.badMoment ms key) := by
  unfold findUse
  rw [inspect_table hread (hs.mem_present _), Tables.recentRows_eq_ok.mpr hs.recents_eq]
  unfold Tables.useOf?
  dsimp only
  cases c.tables.uses.find? (·.isFor (wide owner) (.text key)) <;> rfl

/-- Where the ledger holds nothing for a key, nothing is found, and no row is for it. -/
theorem findUse_none (hs : c.tables.Sound)
    (h : c.tables.useOf? (wide owner) (.text key) = none) :
    (∀ r ∈ c.tables.uses, r.isFor (wide owner) (.text key) = false) ∧
      (findUse .clear owner key c).1 = .ok none := by
  refine ⟨fun r hr => ?_, by rw [findUse_readable rfl hs, h]⟩
  unfold Tables.useOf? at h
  rw [Option.map_eq_none_iff, List.find?_eq_none] at h
  simpa using h r hr

/-- Where the ledger holds a moment for a key, there is a row for it, and the moment is found. -/
theorem findUse_some (hs : c.tables.Sound) {ms : Int} {moment : Time.Instant}
    (h : c.tables.useOf? (wide owner) (.text key) = some (.integer ms))
    (hm : Time.Instant.ofMillis? ms = some moment) :
    (∃ r ∈ c.tables.uses, r.isFor (wide owner) (.text key) = true) ∧
      (findUse .clear owner key c).1 = .ok (some ⟨owner, key, moment⟩) := by
  constructor
  · obtain ⟨r, hr, -⟩ := Option.map_eq_some_iff.mp h
    exact ⟨r, List.mem_of_find?_eq_some hr, isFor_of_find? hr⟩
  · rw [findUse_readable rfl hs, h]
    simp only [Cell.readInteger, hm]

end Read

/-- What the ledger tells after a session on fresh tables that nothing has disturbed: each key of a
user comes at most once. It comes exactly if the last event for it is a use, and then the moment of
this use is found, rounded down to milliseconds. Where that moment lies in a leap second, what is
found is as far into the second after it. -/
theorem ledger_tells_last_use {steps : List Step} (hsteps : ∀ st ∈ steps, st.Calm)
    (owner : UserId) (key : String) (c : Connection)
    (hc : c.tables = ((Session.start .fresh).run steps).2.tables) :
    ∃ rows, c.tables.recents = some rows ∧ (rows.map (·.slot)).Nodup ∧
      match ((Session.start .fresh).events owner key steps).getLast? with
      | some (.used moment) =>
        (∃ r ∈ rows, r.isFor (wide owner) (.text key) = true) ∧
          ∃ read, (findUse .clear owner key c).1 = .ok (some ⟨owner, key, read⟩) ∧
            if moment.InLeap then moment.pastLeap? = some read else read = moment.wholeMillis
      | _ =>
        (∀ r ∈ rows, r.isFor (wide owner) (.text key) = false) ∧
          (findUse .clear owner key c).1 = .ok none := by
  obtain ⟨hsound, hlast⟩ := Session.sound_start.run hsteps owner key
  rw [← hc] at hlast
  have hs : c.tables.Sound := hc ▸ hsound.tables
  refine ⟨c.tables.uses, hs.recents_eq, hs.keyed.slots, ?_⟩
  cases hevent : ((Session.start .fresh).events owner key steps).getLast? with
  | none =>
    rw [hevent] at hlast
    exact findUse_none hs hlast
  | some event =>
    rw [hevent] at hlast
    cases event with
    | forgotten => exact findUse_none hs hlast
    | used moment =>
      have hmem := List.mem_of_getLast? hevent
      obtain ⟨read, hread⟩ :=
        Option.isSome_iff_exists.mp (Session.readable_of_mem_events hsteps hmem)
      obtain ⟨hrow, hfound⟩ := findUse_some hs hlast hread
      refine ⟨hrow, read, hfound, ?_⟩
      rw [Time.Instant.ofMillis?_millis] at hread
      split
      · rwa [if_pos ‹_›] at hread
      · rw [if_neg ‹_›] at hread
        exact (Option.some.inj hread).symm

/-- A store is opened and makes a user, who uses a key at moments. -/
def ledgerTrial (uses : List (Option Dialect.Strategy × Time.Instant)) : List Step :=
  ⟨0, .clear, .join .sqlite⟩ :: ⟨0, .clear, .ask (.createUser "u")⟩ ::
    uses.map fun u => ⟨0, .clear, .ask (.recordUse u.1 1 "a" u.2)⟩

theorem ledgerTrial_calm {uses : List (Option Dialect.Strategy × Time.Instant)}
    (h : ∀ u ∈ uses, u.1 ≠ some .duplicateKey ∧ (Time.Instant.ofMillis? u.2.millis).isSome) :
    ∀ st ∈ ledgerTrial uses, st.Calm := by
  simp only [ledgerTrial, List.forall_mem_cons, List.forall_mem_map]
  refine ⟨⟨rfl, fun r hr => by cases hr⟩, ⟨rfl, fun r hr => ?_⟩, fun u hu => ⟨rfl, fun r hr => ?_⟩⟩
  · cases hr
    exact trivial
  · cases hr
    exact h u hu

/-- The use that was recorded last counts, though its moment is the older one. -/
theorem ledger_tells_older_use :
    let steps := ledgerTrial [(none, ⟨5, 0, by decide⟩),
      (some .conflictTarget, ⟨2, 1500000, by decide⟩)]
    (∀ st ∈ steps, st.Calm) ∧
      (findUse .clear 1 "a" ⟨((Session.start .fresh).run steps).2.tables, {}, 0⟩).1 =
        .ok (some ⟨1, "a", ⟨2, 1000000, by decide⟩⟩) := by
  intro steps
  have hsteps : ∀ st ∈ steps, st.Calm := ledgerTrial_calm (by decide)
  have hlast : ((Session.start .fresh).events 1 "a" steps).getLast? =
      some (.used ⟨2, 1500000, by decide⟩) := rfl
  obtain ⟨rows, -, -, h⟩ := ledger_tells_last_use hsteps 1 "a" ⟨_, {}, 0⟩ rfl
  rw [hlast] at h
  obtain ⟨-, read, hfound, hread⟩ := h
  rw [if_neg (by decide)] at hread
  have hmoment : read = ⟨2, 1000000, by decide⟩ := hread.trans (by decide)
  exact ⟨hsteps, by rw [hfound, hmoment]⟩

/-- A use half a second into a leap second is found half a second into the second after it, which is
later than the use. -/
theorem ledger_tells_leap_second_late :
    let moment : Time.Instant := ⟨59, 1500000000, by decide⟩
    let read : Time.Instant := ⟨60, 500000000, by decide⟩
    let steps := ledgerTrial [(none, moment)]
    (∀ st ∈ steps, st.Calm) ∧
      ((Session.start .fresh).events 1 "a" steps).getLast? = some (.used moment) ∧
      (findUse .clear 1 "a" ⟨((Session.start .fresh).run steps).2.tables, {}, 0⟩).1 =
        .ok (some ⟨1, "a", read⟩) ∧
      read ≠ moment.wholeMillis ∧ moment.Before read := by
  intro moment read steps
  have hsteps : ∀ st ∈ steps, st.Calm := ledgerTrial_calm (by decide)
  have hevents : ((Session.start .fresh).events 1 "a" steps).getLast? = some (.used moment) := rfl
  have hread : Time.Instant.ofMillis? moment.millis = some read := by decide
  obtain ⟨hsound, hlast⟩ := Session.sound_start.run hsteps 1 "a"
  rw [hevents] at hlast
  exact ⟨hsteps, hevents, (findUse_some hsound.tables hlast hread).2, by decide, by decide⟩

end Pinboard.Store
