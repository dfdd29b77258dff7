import Pinboard.Proofs.Ranking
import Pinboard.Proofs.Reflection
import Pinboard.Proofs.WellFormed

/-!
# Stores that nothing gets in the way of

What a store remembers from earlier matters only in one case: a fault on a column that its table
does not have. In a session in which no such fault was ever met, an undisturbed request is answered
from the tables alone, whatever faults and locks there have been before.
-/

namespace Pinboard.Store

/-! ## What is remembered has no part in the outcome -/

/-- The connection as it would be if it remembered nothing. -/
def Connection.calmed (c : Connection) : Connection := { c with known := {} }

/-- A statement that only the want of a table, or a fault on a column that is not there, keeps from
being prepared. -/
structure Expects (needs : Schema → Except StorageError Unit) : Prop where
  /-- Where all tables are there, it is prepared. -/
  ready : needs ⟨Tables.fresh.present, []⟩ = .ok ()
  /-- Otherwise the tables are looked at. -/
  doubtful : ∀ {k e}, (∀ f ∈ k.faults, f.strayColumn? = none) → needs k = .error e →
    e.isDoubtful = true

theorem expects_table (table : Table) : Expects (requireTable · table) :=
  ⟨by cases table <;> rfl, fun _ h => requireTable_doubtful h⟩

theorem expects_change (table : Table) (event : RowEvent) : Expects (requireFor · table event) :=
  ⟨by cases table <;> cases event <;> rfl, fun hk h => doubtful_of_requireFor hk h⟩

namespace Connection.Steady

variable {c : Connection} {α β : Type} {needs : Schema → Except StorageError Unit}

theorem calmed (hc : c.Steady) : c.calmed.Steady := ⟨hc.tables, List.forall_mem_nil _⟩

theorem calm_calmed (hs : c.tables.Sound) : c.calmed.Calm := ⟨hs, rfl⟩

theorem prepares (hc : c.Steady) (hs : c.tables.Sound) (hn : Expects needs) :
    c.Prepares .clear needs ∧ needs (c.tables.schema .clear) = .ok () := by
  have hneeds : needs (c.tables.schema .clear) = .ok () := by
    rw [hs.schema_clear]
    exact hn.ready
  exact ⟨prepares_clear (fun _ h => hn.doubtful hc.known h) hneeds, hneeds⟩

theorem inspect_calmed (hc : c.Steady) (hs : c.tables.Sound) (hn : Expects needs)
    (question : Tables → Except Refusal α) :
    (inspect .clear needs question).outcome c =
      (inspect .clear needs question).outcome c.calmed := by
  obtain ⟨hp, hneeds⟩ := hc.prepares hs hn
  rw [inspect_outcome hp hneeds, inspect_outcome (hc.calmed.prepares hs hn).1 hneeds]
  rfl

theorem autocommit_calmed (hc : c.Steady) (hs : c.tables.Sound) (hn : Expects needs)
    (rowwise : Bool) (steps : Steps α) : (autocommit .clear rowwise needs steps).outcome c =
      (autocommit .clear rowwise needs steps).outcome c.calmed := by
  obtain ⟨hp, hneeds⟩ := hc.prepares hs hn
  rw [autocommit_outcome hp hneeds, autocommit_outcome (hc.calmed.prepares hs hn).1 hneeds]
  rfl

theorem transactionFrom_calmed (hc : c.Steady) (hs : c.tables.Sound) (hn : Expects needs)
    (steps : Steps α) : (transactionFrom .clear needs steps).outcome c =
      (transactionFrom .clear needs steps).outcome c.calmed := by
  rw [transactionFrom_outcome (hc.prepares hs hn).1,
    transactionFrom_outcome (hc.calmed.prepares hs hn).1]
  rfl

theorem transactionIf_calmed (lasts : α → Bool) (steps : Steps α) (c : Connection) :
    (transactionIf .clear lasts steps).outcome c =
      (transactionIf .clear lasts steps).outcome c.calmed := by
  rw [transactionIf_outcome, transactionIf_outcome]
  rfl

theorem map_calmed {op : Operation α} (h : op.outcome c = op.outcome c.calmed) (f : α → β) :
    (op.map f).outcome c = (op.map f).outcome c.calmed := by
  rw [Operation.outcome_map, Operation.outcome_map, h]

theorem recordUse_calmed (hc : c.Steady) (hs : c.tables.Sound) (strategy : Dialect.Strategy)
    (owner : UserId) (key : String) (moment : Time.Instant) :
    (Store.recordUse .clear strategy owner key moment).outcome c =
      (Store.recordUse .clear strategy owner key moment).outcome c.calmed := by
  by_cases hx : strategy = .duplicateKey
  · -- the statement cannot be read, whatever is remembered
    subst hx
    rfl
  · refine hc.autocommit_calmed hs ⟨?_, fun hk h => doubtful_of_requireRecent hx hk h⟩ true _
    cases strategy with
    | duplicateKey => exact absurd rfl hx
    | _ => rfl

/-- What comes of recording a use is told by the tables. -/
theorem recordUse_congr {d : Connection} (hc : c.Steady) (hd : d.Steady) (hs : c.tables.Sound)
    (htables : c.tables = d.tables) (strategy : Dialect.Strategy) (owner : UserId) (key : String)
    (moment : Time.Instant) : (Store.recordUse .clear strategy owner key moment).outcome c =
      (Store.recordUse .clear strategy owner key moment).outcome d := by
  have hs' : d.tables.Sound := htables ▸ hs
  rw [hc.recordUse_calmed hs, hd.recordUse_calmed hs', (calm_calmed hs).recordUse_outcome,
    (calm_calmed hs').recordUse_outcome]
  simp only [Connection.calmed, htables]

theorem keeps {op : Operation α} (hc : c.Steady) (hl : op.Learns .clear)
    (hs : (op c).2.tables.Sound) : (op c).2.Steady := by
  refine ⟨hs.mem_present, ?_⟩
  rcases hl c with h | h
  · rw [h]
    exact hc.known
  · rw [h]
    exact List.forall_mem_nil _

theorem recordUses_congr {d : Connection} (hc : c.Steady) (hd : d.Steady) (hs : c.tables.Sound)
    (htables : c.tables = d.tables) (strategy : Dialect.Strategy) (owner : UserId)
    (moment : Time.Instant) (keys : List String) :
    (Store.recordUses .clear strategy owner moment keys c).1 =
        (Store.recordUses .clear strategy owner moment keys d).1 ∧
      (Store.recordUses .clear strategy owner moment keys c).2.tables =
        (Store.recordUses .clear strategy owner moment keys d).2.tables := by
  induction keys generalizing c d with
  | nil => exact ⟨rfl, htables⟩
  | cons key keys ih =>
    obtain ⟨hanswer, hnext⟩ :=
      Prod.mk.inj (hc.recordUse_congr hd hs htables strategy owner key moment)
    have hlearns := recordUse_learns .clear strategy owner key moment
    have hsound := (recordUse_keeps strategy hs owner key moment).1
    have hsound' := (recordUse_keeps strategy (htables ▸ hs) owner key moment).1
    obtain ⟨hrest, hlast⟩ :=
      ih (hc.keeps hlearns hsound) (hd.keeps hlearns hsound') hsound hnext
    rw [recordUses_cons, recordUses_cons, hanswer, hrest]
    exact ⟨rfl, hlast⟩

/-- What comes of an undisturbed request does not depend on what is remembered. -/
theorem run_calmed (hc : c.Steady) (hs : c.tables.Sound) (own : Dialect.Strategy) (r : Request) :
    (r.run .clear own).outcome c = (r.run .clear own).outcome c.calmed := by
  cases r with
  | createUser name =>
    refine map_calmed ?_ _
    unfold Store.createUser
    split
    · rfl
    · exact hc.autocommit_calmed hs (expects_change .users .insert) true _
  | findUser id => exact map_calmed (hc.inspect_calmed hs (expects_table .users) _) _
  | removeUser id =>
    refine map_calmed ?_ _
    rw [Store.removeUser, Operation.outcome_judge, Operation.outcome_judge,
      hc.autocommit_calmed hs ⟨rfl, fun hk h => doubtful_of_requireRemoval hk h⟩]
  | createDashboard draft =>
    refine map_calmed ?_ _
    unfold Store.createDashboard
    split
    · rfl
    · exact transactionIf_calmed _ _ c
  | findDashboard owner id =>
    exact map_calmed (hc.inspect_calmed hs (expects_table .dashboards) _) _
  | listDashboards owner =>
    exact map_calmed (hc.inspect_calmed hs (expects_table .dashboards) _) _
  | moveDashboard owner id d => exact map_calmed (transactionIf_calmed _ _ c) _
  | reindexDashboards owner => exact map_calmed (transactionIf_calmed _ _ c) _
  | removeDashboard owner id =>
    exact map_calmed (hc.transactionFrom_calmed hs (expects_change .dashboards .delete) _) _
  | createTag tag =>
    refine map_calmed ?_ _
    unfold Store.createTag
    split
    · rfl
    · exact hc.autocommit_calmed hs (expects_change .tags .insert) true _
  | findTag owner key => exact map_calmed (hc.inspect_calmed hs (expects_table .tags) _) _
  | listTags owner => exact map_calmed (hc.inspect_calmed hs (expects_table .tags) _) _
  | rankTags owner =>
    exact map_calmed (hc.inspect_calmed hs ⟨rfl, fun _ h => requireRanking_doubtful h⟩ _) _
  | removeTag owner key =>
    exact map_calmed (hc.transactionFrom_calmed hs (expects_change .tags .delete) _) _
  | recordUse strategy owner key moment =>
    exact map_calmed (hc.recordUse_calmed hs (strategy.getD own) owner key moment) _
  | recordUses strategy owner keys moment =>
    obtain ⟨hanswer, htables⟩ :=
      hc.recordUses_congr hc.calmed hs rfl (strategy.getD own) owner moment keys
    exact congrArg₂ (fun us t => (Except.ok (Reply.unrecorded us), t)) hanswer htables
  | findUse owner key => exact map_calmed (hc.inspect_calmed hs (expects_table .recents) _) _

end Connection.Steady

/-! ## Sessions -/

/-- The faults that are set during the step look at columns that are there. -/
def Step.Fair (st : Step) : Prop := ∀ f ∈ st.setting.faults, f.strayColumn? = none

instance (st : Step) : Decidable st.Fair :=
  inferInstanceAs (Decidable (∀ f ∈ st.setting.faults, f.strayColumn? = none))

namespace Session

/-- The tables are as they have to be, and no store is kept from using them. -/
structure Steady (w : Session) : Prop where
  /-- The tables are as they have to be. -/
  tables : w.tables.Kept
  /-- No store remembers a fault on a column that is not there. -/
  known : ∀ i k, w.clients i = some k → ∀ f ∈ k.known.faults, f.strayColumn? = none
  /-- Each has a way of recording that the database knows. -/
  own : ∀ i k, w.clients i = some k → k.own ≠ .duplicateKey

theorem steady_start : (start .fresh).Steady :=
  ⟨Tables.kept_fresh, fun _ _ h => (nomatch h), fun _ _ h => nomatch h⟩

variable {w : Session} {i : Nat} {k : Client}

theorem Steady.seat (hw : w.Steady) {k : Option Client} {t : Tables} (ht : t.Kept)
    (hk : ∀ k' ∈ k, (∀ f ∈ k'.known.faults, f.strayColumn? = none) ∧ k'.own ≠ .duplicateKey) :
    (w.seat i k t).Steady := by
  have hcases : ∀ j k', (w.seat i k t).clients j = some k' →
      k' ∈ k ∨ w.clients j = some k' := by
    intro j k' hj
    unfold Session.seat at hj
    dsimp only at hj
    split at hj
    · exact Or.inl hj
    · exact Or.inr hj
  refine ⟨ht, fun j k' hj => ?_, fun j k' hj => ?_⟩
  · rcases hcases j k' hj with h | h
    · exact (hk k' h).1
    · exact hw.known j k' h
  · rcases hcases j k' hj with h | h
    · exact (hk k' h).2
    · exact hw.own j k' h

theorem Steady.connection (hw : w.Steady) (hi : w.clients i = some k) :
    Connection.Steady ⟨w.tables, k.known, k.changed⟩ :=
  ⟨hw.tables.sound.mem_present, hw.known i k hi⟩

theorem Steady.join (hw : w.Steady) {s : Setting} (hs : ∀ f ∈ s.faults, f.strayColumn? = none)
    (d : Dialect) : (w.join i s d).2.Steady := by
  have htables := addTables_tables s ⟨w.tables, {}, 0⟩
  rw [show Tables.addMissing _ = w.tables from hw.tables.sound.addMissing, or_self] at htables
  have hknown : ∀ f ∈ (addTables s ⟨w.tables, {}, 0⟩).2.known.faults, f.strayColumn? = none := by
    rcases addTables_learns s ⟨w.tables, {}, 0⟩ with h | h
    · rw [h]
      exact List.forall_mem_nil _
    · rw [h]
      exact hs
  unfold Session.join
  generalize addTables s ⟨w.tables, {}, 0⟩ = result at htables hknown ⊢
  rcases result with ⟨r | u, c⟩
  · exact hw.seat hw.tables fun _ h => nomatch h
  · dsimp only at htables hknown ⊢
    rw [htables]
    cases hd : requireRecent d.strategy c.known with
    | error e => exact hw.seat hw.tables fun _ h => nomatch h
    | ok v =>
      refine hw.seat hw.tables fun k' hk' => ?_
      cases hk'
      exact ⟨hknown, known_of_requireRecent hd⟩

theorem Steady.step (hw : w.Steady) {st : Step} (hst : st.Fair) : (w.step st).2.Steady := by
  obtain ⟨i, s, act⟩ := st
  unfold Session.step
  cases act with
  | join d => exact hw.join hst d
  | ask r =>
    dsimp only
    cases hi : w.clients i with
    | none => exact hw
    | some k =>
      have hkept : (r.run s k.own ⟨w.tables, k.known, k.changed⟩).2.tables.Kept := by
        rcases run_cases s k.own r ⟨w.tables, k.known, k.changed⟩ with ⟨a, -, h⟩ | ⟨-, h⟩
        · exact h.kept hw.tables
        · rw [h]
          exact hw.tables
      have hknown : ∀ f ∈ (r.run s k.own ⟨w.tables, k.known, k.changed⟩).2.known.faults,
          f.strayColumn? = none := by
        rcases run_learns s k.own r ⟨w.tables, k.known, k.changed⟩ with h | h <;> rw [h]
        · exact hw.known i k hi
        · exact hst
      refine hw.seat hkept fun k' hk' => ?_
      cases hk'
      exact ⟨hknown, hw.own i k hi⟩
  | look =>
    dsimp only
    cases hi : w.clients i with
    | none => exact hw
    | some k =>
      refine hw.seat hw.tables fun k' hk' => ?_
      cases hk'
      exact ⟨hst, hw.own i k hi⟩

theorem Steady.run (hw : w.Steady) {steps : List Step} (hsteps : ∀ st ∈ steps, st.Fair) :
    (w.run steps).2.Steady := by
  induction steps generalizing w with
  | nil => exact hw
  | cons st steps ih =>
    obtain ⟨hst, hrest⟩ := List.forall_mem_cons.mp hsteps
    exact ih (hw.step hst) hrest

/-- An undisturbed request to an open store is answered, and done, as by one that remembers nothing,
and the store stays open. -/
theorem Steady.ask (hw : w.Steady) (hi : w.clients i = some k) (r : Request) :
    let c : Connection := ⟨w.tables, {}, k.changed⟩
    c.Calm ∧ (w.step ⟨i, .clear, .ask r⟩).1 = .asked (r.run .clear k.own c).1 ∧
      (w.step ⟨i, .clear, .ask r⟩).2.tables = (r.run .clear k.own c).2.tables ∧
      ∃ k', (w.step ⟨i, .clear, .ask r⟩).2.clients i = some k' := by
  intro c
  obtain ⟨hanswer, htables⟩ :=
    Prod.mk.inj ((hw.connection hi).run_calmed hw.tables.sound k.own r)
  unfold Session.step
  dsimp only
  rw [hi]
  refine ⟨⟨hw.tables.sound, rfl⟩, ?_, htables, _, if_pos rfl⟩
  exact congrArg Answer.asked hanswer

end Session

end Pinboard.Store
