import Mathlib
import Pinboard.Proofs.Recording
import Pinboard.Proofs.Session
import Pinboard.Proofs.Volume

/-!
# Runs that record uses in different ways

Two runs of the same steps may differ in the dialects that stores are opened in, and in the ways of
recording that requests name. `run_twin` runs them side by side: what is kept is that the databases
are alike and that each store knows the same in both.
-/

namespace Pinboard.Store

/-! ## Counterparts -/

/-- Two acts are the same, but for the dialect of a store or the way of recording that a request
names. Either both ways are known to the database, or neither is. -/
inductive Act.Counterpart : Act → Act → Prop where
  /-- A store is opened in one dialect or the other. -/
  | join {d d' : Dialect} (h : Akin d.strategy d'.strategy) : Counterpart (.join d) (.join d')
  /-- The same is asked for, with one way of recording named or the other. -/
  | ask (r : Request) {x x' : Option Dialect.Strategy}
      (h : x = some .duplicateKey ↔ x' = some .duplicateKey) :
      Counterpart (.ask (r.recordBy x)) (.ask (r.recordBy x'))
  /-- The store looks at the database. -/
  | look : Counterpart .look .look

/-- Two steps of the same store within the same circumstances, whose acts are counterparts. -/
structure Step.Counterpart (st st' : Step) : Prop where
  /-- The store is the same. -/
  client : st'.client = st.client
  /-- The circumstances are the same. -/
  setting : st'.setting = st.setting
  /-- The acts differ at most in the way of recording. -/
  act : st.act.Counterpart st'.act

theorem Request.exists_recordBy (r : Request) : ∃ x, r.recordBy x = r := by
  cases r with
  | recordUse x owner key moment => exact ⟨x, rfl⟩
  | recordUses x owner keys moment => exact ⟨x, rfl⟩
  | _ => exact ⟨none, rfl⟩

theorem Act.Counterpart.refl (a : Act) : a.Counterpart a := by
  cases a with
  | join d => exact .join Iff.rfl
  | ask r =>
    obtain ⟨x, h⟩ := r.exists_recordBy
    have hself := @Act.Counterpart.ask r x x Iff.rfl
    rwa [h] at hself
  | look => exact .look

/-- Two answers agree: they are the same, but for what an answer tells of the dialect, of the order
of the ledger, or of why a use was not recorded. -/
inductive Answer.Agrees (st st' : Step) : Answer → Answer → Prop where
  /-- They are the same. -/
  | same (a : Answer) : Agrees st st' a a
  /-- Each tells its own dialect. -/
  | dialect {d d' : Dialect} (hd : st.act = .join d) (hd' : st'.act = .join d') (e : StorageError) :
      Agrees st st' (.joined (.error (.dialect d e))) (.joined (.error (.dialect d' e)))
  /-- Of the faults that keep a user's uses, each tells the one that it meets first. -/
  | struck {id : UserId} {f f' : Fault} (hact : st.act = .ask (.removeUser id))
      (hf : f ∈ st.setting.faults ∧ f.table = .recents ∧ f.event = .delete)
      (hf' : f' ∈ st.setting.faults ∧ f'.table = .recents ∧ f'.event = .delete) :
      Agrees st st' (.asked (.error (.storage (.struck f.message))))
        (.asked (.error (.storage (.struck f'.message))))
  /-- A use of nobody is recorded where no row can be written: one tells the one, and the other the
  other. -/
  | barred {x : Option Dialect.Strategy} {owner : UserId} {key : String} {moment : Time.Instant}
      {e e' : StorageError} (hact : st.act = .ask (.recordUse x owner key moment))
      (h : st.setting.SameBar e e') :
      Agrees st st' (.asked (.error (.storage e))) (.asked (.error (.storage e')))
  /-- Of a batch the same uses are left out, each for the same cause or as if it were alone. -/
  | unrecorded {us us' : List Unrecorded}
      (h : List.Forall₂ (Unrecorded.Same st.setting) us us') :
      Agrees st st' (.asked (.ok (.unrecorded us))) (.asked (.ok (.unrecorded us')))

/-- The answers of two runs agree, step by step. -/
inductive Agree : List Step → List Step → List Answer → List Answer → Prop where
  /-- Nothing was done. -/
  | nil : Agree [] [] [] []
  /-- The answers to the first steps agree, and so do the others. -/
  | cons {st st' : Step} {a a' : Answer} {steps steps' : List Step} {as as' : List Answer}
      (h : a.Agrees st st' a') (hs : Agree steps steps' as as') :
      Agree (st :: steps) (st' :: steps') (a :: as) (a' :: as')

/-- The same rows in all tables, and the same counters. Those of the ledger may come in another
order and have other numbers. -/
structure Tables.SameRows (t t' : Tables) : Prop where
  /-- The users are the same. -/
  users : t'.users = t.users
  /-- The dashboards are the same. -/
  dashboards : t'.dashboards = t.dashboards
  /-- The tag definitions are the same. -/
  tags : t'.tags = t.tags
  /-- The uses are the same, up to their order and numbers. -/
  recents : Option.Rel (fun rows rows' => (rows'.map RecentRow.entry).Perm
    (rows.map RecentRow.entry)) t.recents t'.recents
  /-- The last number of a user is the same. -/
  lastUser : t'.lastUser = t.lastUser
  /-- The last number of a dashboard is the same. -/
  lastDashboard : t'.lastDashboard = t.lastDashboard

/-! ## Twins -/

/-- A store knows the same in both runs, and records uses in ways that the database knows. -/
structure Client.Twin (k k' : Client) : Prop where
  /-- The same is remembered. -/
  known : k'.known = k.known
  /-- No fault on the change of a use is known. -/
  plain : k.known.Plain
  /-- The database knows the way of the one. -/
  own : k.own ≠ .duplicateKey
  /-- The database knows the way of the other. -/
  own' : k'.own ≠ .duplicateKey

/-- Two sessions on databases that are alike, with the same stores open. -/
structure Session.Twin (w w' : Session) : Prop where
  /-- The databases are alike. -/
  tables : w.tables.Alike w'.tables
  /-- The one obeys its keys. -/
  keyed : w.tables.Keyed
  /-- The other obeys its keys. -/
  keyed' : w'.tables.Keyed
  /-- Each store is open in both or in neither. -/
  clients : ∀ i, Option.Rel Client.Twin (w.clients i) (w'.clients i)

/-! ## Opening -/

section Missing

variable {t t' : Tables}

theorem Tables.addMissing_uses (t : Tables) : t.addMissing.uses = t.uses := by
  unfold uses addMissing
  cases t.recents <;> rfl

theorem Tables.addMissing_hasUser (t : Tables) (owner : Int) :
    t.addMissing.HasUser owner ↔ t.HasUser owner := by
  unfold HasUser addMissing
  cases t.users <;> rfl

theorem Tables.Keyed.addMissing (h : t.Keyed) : t.addMissing.Keyed := by
  refine ⟨?_, fun r hr => ?_⟩
  · rw [t.addMissing_uses]
    exact h.slots
  · rw [t.addMissing_uses] at hr
    exact (t.addMissing_hasUser r.owner).mpr (h.owners r hr)

theorem Tables.Alike.has (h : t.Alike t') (table : Table) : t'.has table = t.has table := by
  cases table with
  | recents => exact h.there
  | _ =>
    rw [h.rest]
    rfl

theorem Tables.Alike.incomplete (h : t.Alike t') : t'.incomplete = t.incomplete := by
  unfold Tables.incomplete
  rw [show t'.has = t.has from funext h.has]

theorem Tables.Alike.addMissing (h : t.Alike t') : t.addMissing.Alike t'.addMissing := by
  refine h.of_uses ?_ ?_ t.addMissing_uses t'.addMissing_uses
  · have hhas : t'.has = t.has := funext h.has
    unfold Tables.addMissing
    rw [hhas, h.rest]
    rfl
  · unfold Tables.addMissing
    cases t.recents <;> cases t'.recents <;> rfl

end Missing

section Opening

variable {s : Setting} {c c' : Connection}

theorem makeTables_together (s : Setting) : (makeTables s).Together Eq (makeTables s) := by
  intro t t' ht
  simp only [makeTables, Statement.get_bind_apply, Statement.lift_bind_apply]
  exact .bind_same (fun _ => rfl) _ fun _ _ => .ok ⟨rfl, ht.addMissing⟩

/-- The missing tables are made in one database if they are made in the other. -/
theorem addTables_concur (hc : c.Alike c') :
    Operation.Concur Eq Eq (addTables s c) (addTables s c') := by
  unfold addTables
  cases s.beginReading with
  | error e => exact ⟨.error rfl, hc⟩
  | ok u =>
    dsimp only
    rw [hc.tables.incomplete]
    by_cases hmissing : c.tables.incomplete = true
    · rw [if_pos hmissing, if_pos hmissing]
      exact autocommit_concur (fun _ => rfl) false hc rfl rfl
        (.define (fun _ => rfl) (makeTables_together s _ _ hc.tables))
    · rw [if_neg hmissing, if_neg hmissing]
      exact ⟨.ok rfl, hc.look c.changed c'.changed⟩

theorem addTables_keyed (hk : c.tables.Keyed) : (addTables s c).2.tables.Keyed := by
  rcases addTables_tables s c with h | h
  · rw [h]
    exact hk
  · rw [h]
    exact hk.addMissing

theorem addTables_plain (hs : s.Fair) (hplain : c.known.Plain) :
    (addTables s c).2.known.Plain := by
  unfold Schema.Plain
  rcases addTables_learns s c with h | h
  · rw [h]
    exact hplain
  · rw [h]
    exact hs.update

end Opening

/-! ## Asking -/

theorem akin_getD {own own' : Dialect.Strategy} (hown : own ≠ .duplicateKey)
    (hown' : own' ≠ .duplicateKey) {x x' : Option Dialect.Strategy}
    (hx : x = some .duplicateKey ↔ x' = some .duplicateKey) :
    Akin (x.getD own) (x'.getD own') := by
  unfold Akin
  rw [getD_eq_duplicateKey hown, getD_eq_duplicateKey hown', hx]

theorem run_keyed (s : Setting) (own : Dialect.Strategy) (r : Request) {c : Connection}
    (hk : c.tables.Keyed) : (r.run s own c).2.tables.Keyed := by
  rcases run_cases s own r c with ⟨a, -, heff⟩ | ⟨-, h⟩
  · exact heff.keyed hk
  · rw [h]
    exact hk

theorem run_plain {s : Setting} (hs : s.Fair) (own : Dialect.Strategy) (r : Request)
    {c : Connection} (hplain : c.known.Plain) : (r.run s own c).2.known.Plain := by
  unfold Schema.Plain
  rcases run_learns s own r c with h | h
  · rw [h]
    exact hplain
  · rw [h]
    exact hs.update

/-! ## Side by side -/

namespace Session

variable {w w' : Session} {s : Setting}

theorem start_twin {t : Tables} (hk : t.Keyed) : (start t).Twin (start t) :=
  ⟨.refl hk.slots, hk, hk, fun _ => .none⟩

theorem Twin.seat (hw : w.Twin w') (i : Nat) {k k' : Option Client} {t t' : Tables}
    (hk : Option.Rel Client.Twin k k') (ht : t.Alike t') (hkeyed : t.Keyed)
    (hkeyed' : t'.Keyed) : (w.seat i k t).Twin (w'.seat i k' t') := by
  refine ⟨ht, hkeyed, hkeyed', fun j => ?_⟩
  unfold Session.seat
  dsimp only
  split
  · exact hk
  · exact hw.clients j

/-- A store is opened in both sessions or in neither. -/
theorem Twin.join (hw : w.Twin w') (hs : s.Fair) (i : Nat) {d d' : Dialect}
    (hd : Akin d.strategy d'.strategy) :
    Tally (fun e e' => e = e' ∨ ∃ cause, e = .dialect d cause ∧ e' = .dialect d' cause) Eq
      (w.join i s d).1 (w'.join i s d').1 ∧ (w.join i s d).2.Twin (w'.join i s d').2 := by
  have hempty : Schema.Plain {} := fun f hf => nomatch hf
  have hc : Connection.Alike ⟨w.tables, {}, 0⟩ ⟨w'.tables, {}, 0⟩ := ⟨hw.tables, rfl⟩
  obtain ⟨ha, hl⟩ := addTables_concur hc
  have hk : (addTables s ⟨w.tables, {}, 0⟩).2.tables.Keyed := addTables_keyed hw.keyed
  have hk' : (addTables s ⟨w'.tables, {}, 0⟩).2.tables.Keyed := addTables_keyed hw.keyed'
  have hplain : (addTables s ⟨w.tables, {}, 0⟩).2.known.Plain := addTables_plain hs hempty
  unfold Session.join
  generalize addTables s ⟨w.tables, {}, 0⟩ = p at ha hl hk hplain ⊢
  generalize addTables s ⟨w'.tables, {}, 0⟩ = p' at ha hl hk' ⊢
  obtain ⟨result, c⟩ := p
  obtain ⟨result', c'⟩ := p'
  dsimp only at ha hl hk hk' hplain ⊢
  cases ha with
  | error h =>
    exact ⟨.error (Or.inl (congrArg OpenError.schema h)),
      hw.seat i .none hw.tables hw.keyed hw.keyed'⟩
  | ok h =>
    have hneeds : requireRecent d'.strategy c'.known = requireRecent d.strategy c.known := by
      rw [hl.known, requireRecent_akin hplain hd]
    dsimp only
    rw [hneeds]
    cases hrequired : requireRecent d.strategy c.known with
    | error e => exact ⟨.error (Or.inr ⟨e, rfl, rfl⟩), hw.seat i .none hl.tables hk hk'⟩
    | ok u =>
      have hown := known_of_requireRecent hrequired
      exact ⟨.ok rfl, hw.seat i (.some ⟨hl.known, hplain, hown, mt hd.mpr hown⟩) hl.tables hk hk'⟩

/-- A store answers alike in both sessions. -/
theorem Twin.ask (hw : w.Twin w') (hs : s.Fair) (i : Nat) {k k' : Client} (hk : k.Twin k')
    (r : Request) {x x' : Option Dialect.Strategy}
    (hx : x = some .duplicateKey ↔ x' = some .duplicateKey) :
    Tally (r.SameRefusal s) (Reply.Same s) (w.ask i k s (r.recordBy x)).1
        (w'.ask i k' s (r.recordBy x')).1 ∧
      (w.ask i k s (r.recordBy x)).2.Twin (w'.ask i k' s (r.recordBy x')).2 := by
  have hc : Connection.Alike ⟨w.tables, k.known, k.changed⟩ ⟨w'.tables, k'.known, k'.changed⟩ :=
    ⟨hw.tables, hk.known⟩
  obtain ⟨ha, hl⟩ :=
    run_concur hs (akin_getD hk.own hk.own' hx) r hc hw.keyed hw.keyed' hk.plain
  exact ⟨ha, hw.seat i (.some ⟨hl.known, run_plain hs k.own _ hk.plain, hk.own, hk.own'⟩) hl.tables
    (run_keyed s k.own _ hw.keyed) (run_keyed s k'.own _ hw.keyed')⟩

/-- Refusals that a request tells as the same agree. -/
theorem agrees_of_refusal {st st' : Step} {r : Request} {x : Option Dialect.Strategy}
    {e e' : Refusal} (hact : st.act = .ask (r.recordBy x)) (h : r.SameRefusal st.setting e e') :
    Answer.Agrees st st' (.asked (.error e)) (.asked (.error e')) := by
  cases r with
  | removeUser id =>
    rcases h with rfl | ⟨cause, cause', rfl | ⟨f, hf, f', hf', hrow, hrow', rfl, rfl⟩, rfl, rfl⟩
    · exact .same _
    · exact .same _
    · exact .struck hact ⟨hf, hrow⟩ ⟨hf', hrow'⟩
  | recordUse strategy owner key moment =>
    rcases h with rfl | ⟨cause, cause', hbar, rfl, rfl⟩
    · exact .same _
    · exact .barred hact hbar
  | _ =>
    cases h
    exact .same _

/-- One step of each: the answers agree, and the sessions stay twins. -/
theorem step_twin (hw : w.Twin w') {st st' : Step} (hst : st.Counterpart st')
    (hs : st.setting.Fair) :
    (w.step st).1.Agrees st st' (w'.step st').1 ∧ (w.step st).2.Twin (w'.step st').2 := by
  obtain ⟨i, s, act⟩ := st
  obtain ⟨i', s', act'⟩ := st'
  obtain ⟨rfl, rfl, hact⟩ := hst
  cases hact with
  | @join d d' hd =>
    obtain ⟨ha, hl⟩ := hw.join hs i' hd
    refine ⟨?_, hl⟩
    show Answer.Agrees _ _ (.joined (w.join i' s' d).1) (.joined (w'.join i' s' d').1)
    generalize (w.join i' s' d).1 = result at ha ⊢
    generalize (w'.join i' s' d').1 = result' at ha ⊢
    cases ha with
    | ok h => exact .same _
    | error h =>
      rcases h with rfl | ⟨cause, rfl, rfl⟩
      · exact .same _
      · exact .dialect rfl rfl cause
  | @ask r x x' hx =>
    have hseats := hw.clients i'
    unfold Session.step
    dsimp only
    generalize w.clients i' = seat at hseats ⊢
    generalize w'.clients i' = seat' at hseats ⊢
    cases hseats with
    | none => exact ⟨.same _, hw⟩
    | @some k k' hk =>
      obtain ⟨ha, hl⟩ := hw.ask hs i' hk r hx
      refine ⟨?_, hl⟩
      show Answer.Agrees _ _ (.asked (w.ask i' k s' (r.recordBy x)).1)
        (.asked (w'.ask i' k' s' (r.recordBy x')).1)
      generalize (w.ask i' k s' (r.recordBy x)).1 = result at ha ⊢
      generalize (w'.ask i' k' s' (r.recordBy x')).1 = result' at ha ⊢
      cases ha with
      | ok h =>
        cases h with
        | same a => exact .same _
        | unrecorded h => exact .unrecorded h
      | error h => exact agrees_of_refusal rfl h
  | look =>
    have hseats := hw.clients i'
    unfold Session.step
    dsimp only
    generalize w.clients i' = seat at hseats ⊢
    generalize w'.clients i' = seat' at hseats ⊢
    cases hseats with
    | none => exact ⟨.same _, hw⟩
    | some hk =>
      exact ⟨.same _, hw.seat i' (.some ⟨hw.tables.schema s', hs.update, hk.own, hk.own'⟩) hw.tables
        hw.keyed hw.keyed'⟩

/-- Step after step, the answers agree and the sessions stay twins. -/
theorem run_twin (hw : w.Twin w') {steps steps' : List Step}
    (hsteps : List.Forall₂ Step.Counterpart steps steps')
    (hs : ∀ st ∈ steps, st.setting.Fair) :
    Agree steps steps' (w.run steps).1 (w'.run steps').1 ∧
      (w.run steps).2.Twin (w'.run steps').2 := by
  induction hsteps generalizing w w' with
  | nil => exact ⟨.nil, hw⟩
  | cons hst _ ih =>
    obtain ⟨hfair, hs⟩ := List.forall_mem_cons.mp hs
    obtain ⟨ha, hl⟩ := step_twin hw hst hfair
    obtain ⟨has, hlast⟩ := ih hl hs
    exact ⟨.cons ha has, hlast⟩

end Session

/-! ## What is left -/

/-- A use that comes once is told once. -/
theorem nodup_entries {rows : List RecentRow} (h : (rows.map (·.slot)).Nodup) :
    (rows.map RecentRow.entry).Nodup := by
  refine List.pairwise_map.mpr ((List.pairwise_map.mp h).imp fun {r r'} hne he => hne ?_)
  unfold RecentRow.entry at he
  obtain ⟨howner, he⟩ := Prod.mk.inj he
  rw [RecentRow.slot, RecentRow.slot, howner, (Prod.mk.inj he).1]

theorem Tables.Alike.mem_entries {t t' : Tables} (h : t.Alike t') {e : Int × Cell × Cell}
    (he : e ∈ t.uses.map RecentRow.entry) : e ∈ t'.uses.map RecentRow.entry := by
  obtain ⟨r, hr, rfl⟩ := List.mem_map.mp he
  obtain ⟨r', hr', hentry⟩ := h.entry hr
  exact List.mem_map.mpr ⟨r', hr', hentry⟩

/-- Databases that are alike hold the same rows. -/
theorem Tables.Alike.sameRows {t t' : Tables} (h : t.Alike t') : t.SameRows t' := by
  have hrest := h.rest
  have hperm : (t'.uses.map RecentRow.entry).Perm (t.uses.map RecentRow.entry) :=
    (List.perm_ext_iff_of_nodup (nodup_entries h.slots') (nodup_entries h.slots)).mpr
      fun _ => ⟨h.symm.mem_entries, h.mem_entries⟩
  refine ⟨by rw [hrest]; rfl, by rw [hrest]; rfl, by rw [hrest]; rfl, ?_, by rw [hrest]; rfl,
    by rw [hrest]; rfl⟩
  rcases h.ledgers with ⟨hr, hr'⟩ | ⟨rows, rows', hr, hr'⟩
  · rw [hr, hr']
    exact .none
  · rw [Tables.uses_eq hr, Tables.uses_eq hr'] at hperm
    rw [hr, hr']
    exact .some hperm

/-- The database does not know the clause that names no key, so nothing is recorded by it. -/
theorem recordUse_unknown (s : Setting) (owner : UserId) (key : String) (moment : Time.Instant)
    (c : Connection) :
    ∃ r, (recordUse s .duplicateKey owner key moment c).1 = .error r := by
  refine ⟨.storage (.syntaxNear "DUPLICATE"), ?_⟩
  unfold recordUse autocommit Connection.prepare
  rfl

theorem recordUse_unknown_tables (s : Setting) (owner : UserId) (key : String)
    (moment : Time.Instant) (c : Connection) :
    (recordUse s .duplicateKey owner key moment c).2.tables = c.tables := by
  obtain ⟨r, h⟩ := recordUse_unknown s owner key moment c
  exact recordUse_atomic s .duplicateKey owner key moment c r h

theorem recordUses_unknown_tables (s : Setting) (owner : UserId) (keys : List String)
    (moment : Time.Instant) (c : Connection) :
    (recordUses s .duplicateKey owner moment keys c).2.tables = c.tables := by
  induction keys generalizing c with
  | nil => rfl
  | cons key keys ih =>
    have hone := recordUse_unknown_tables s owner key moment c
    unfold recordUses
    generalize recordUse s .duplicateKey owner key moment c = first at hone ⊢
    obtain ⟨result, c1⟩ := first
    have hrest := ih c1
    dsimp only at hone ⊢
    generalize recordUses s .duplicateKey owner moment keys c1 = rest at hrest ⊢
    obtain ⟨us, c2⟩ := rest
    cases result <;> exact hrest.trans hone

/-! ## Trials -/

/-- A store is opened in a dialect and makes a user, who uses keys at moments. One more act follows,
within circumstances of its own. -/
def trial (d : Dialect) (uses : List (String × Time.Instant)) (s : Setting) (last : Act) :
    List Step :=
  ⟨0, .clear, .join d⟩ :: ⟨0, .clear, .ask (.createUser "u")⟩ ::
    uses.map (fun u => ⟨0, .clear, .ask (.recordUse none 1 u.1 u.2)⟩) ++ [⟨0, s, last⟩]

/-- A fault that strikes when the use of a key is removed. -/
def Fault.keepUse (number : Nat) (key : String) : Fault :=
  ⟨number, .recents, .delete, some ("tag_key", some (.text key)), key⟩

/-- A fault that strikes when the first use that was recorded is removed, if it is still there. -/
def Fault.keepFirst : Fault :=
  ⟨1, .recents, .delete, some (rowNumberColumn, some (.integer 1)), "first"⟩

/-- A fault on the recording of a use that names a column which is not there. -/
def Fault.astray : Fault :=
  ⟨1, .recents, .insert, some ("colour", some (.integer 1)), "astray"⟩

theorem trial_counterpart {d d' : Dialect} (h : Akin d.strategy d'.strategy)
    (uses : List (String × Time.Instant)) (s : Setting) (last : Act) :
    List.Forall₂ Step.Counterpart (trial d uses s last) (trial d' uses s last) :=
  .cons ⟨rfl, rfl, .join h⟩ (List.forall₂_same.mpr fun st _ => ⟨rfl, rfl, .refl st.act⟩)

theorem Setting.fair_clear : Setting.clear.Fair :=
  ⟨fun _ hf => absurd hf List.not_mem_nil, fun _ hf => absurd hf List.not_mem_nil⟩

theorem trial_fair {s : Setting} (hs : s.Fair) (d : Dialect) (uses : List (String × Time.Instant))
    (last : Act) : ∀ st ∈ trial d uses s last, st.setting.Fair := by
  intro st hst
  simp only [trial, List.cons_append, List.mem_cons, List.mem_append, List.mem_map,
    List.not_mem_nil, or_false] at hst
  rcases hst with rfl | rfl | ⟨u, -, rfl⟩ | rfl
  · exact Setting.fair_clear
  · exact Setting.fair_clear
  · exact Setting.fair_clear
  · exact hs

/-! ## Either way of recording -/

/-- Two runs from the same database whose steps are counterparts, within fair circumstances, give
answers that agree and leave the same rows, and the clause that names no key records nothing. -/
theorem recording_interchangeable {t : Tables} (hk : t.Keyed) {steps steps' : List Step}
    (hsteps : List.Forall₂ Step.Counterpart steps steps')
    (hs : ∀ st ∈ steps, st.setting.Fair) :
    Agree steps steps' ((Session.start t).run steps).1 ((Session.start t).run steps').1 ∧
      ((Session.start t).run steps).2.tables.SameRows ((Session.start t).run steps').2.tables ∧
      ∀ (s : Setting) (owner : UserId) (moment : Time.Instant) (c : Connection),
        (∀ key, (recordUse s .duplicateKey owner key moment c).2.tables = c.tables) ∧
          ∀ keys, (recordUses s .duplicateKey owner moment keys c).2.tables = c.tables := by
  obtain ⟨hanswers, hlast⟩ := Session.run_twin (Session.start_twin hk) hsteps hs
  refine ⟨hanswers, hlast.tables.sameRows, fun s owner moment c => ⟨fun key => ?_, fun keys => ?_⟩⟩
  · exact recordUse_unknown_tables s owner key moment c
  · exact recordUses_unknown_tables s owner keys moment c

/-- A user who used two keys, one of them again, stays because a fault keeps one of the uses. -/
theorem recording_interchangeable_kept_use :
    let uses : List (String × Time.Instant) :=
      [("a", ⟨1, 0, by decide⟩), ("b", ⟨2, 0, by decide⟩), ("a", ⟨3, 0, by decide⟩)]
    let s : Setting := { faults := [.keepUse 1 "a"], lock := .shared }
    let steps := trial .sqlite uses s (.ask (.removeUser 1))
    let steps' := trial .postgres uses s (.ask (.removeUser 1))
    Tables.fresh.Keyed ∧ List.Forall₂ Step.Counterpart steps steps' ∧
      (∀ st ∈ steps, st.setting.Fair) ∧
      Agree steps steps' ((Session.start .fresh).run steps).1
        ((Session.start .fresh).run steps').1 ∧
      ((Session.start .fresh).run steps).2.tables.SameRows
        ((Session.start .fresh).run steps').2.tables := by
  intro uses s steps steps'
  have hk : Tables.fresh.Keyed := ⟨List.nodup_nil, fun r hr => nomatch hr⟩
  have hsteps : List.Forall₂ Step.Counterpart steps steps' :=
    trial_counterpart (by decide) uses s _
  have hfair : s.Fair := by
    refine ⟨by decide, ?_⟩
    · intro f hf _ _ column given honly
      obtain rfl := List.mem_singleton.mp hf
      cases honly
      cbv
  have hs : ∀ st ∈ steps, st.setting.Fair := trial_fair hfair .sqlite uses _
  obtain ⟨hanswers, hrows, -⟩ := recording_interchangeable hk hsteps hs
  exact ⟨hk, hsteps, hs, hanswers, hrows⟩

/-- Without a fault on the change of a use, four things still tell the dialects apart. A row that is
replaced has another number, so a fault on the number no longer keeps it. It also comes last, so
another fault may be met first. A refusal to open a store names the dialect. And where no row can be
written, a use of nobody is refused for that, or because the user is missing. -/
theorem recording_not_interchangeable :
    let again : List (String × Time.Instant) := [("a", ⟨1, 0, by decide⟩), ("a", ⟨2, 0, by decide⟩)]
    let beside : List (String × Time.Instant) :=
      [("a", ⟨1, 0, by decide⟩), ("b", ⟨1, 0, by decide⟩), ("a", ⟨2, 0, by decide⟩)]
    let run (d : Dialect) (uses : List (String × Time.Instant)) (s : Setting) (last : Act) :=
      (Session.start .fresh).run (trial d uses s last)
    let first : Setting := { faults := [.keepFirst] }
    let both : Setting := { faults := [.keepUse 2 "b", .keepUse 1 "a"] }
    let astray : Setting := { faults := [.astray] }
    let barred : Setting := { unwritable := some .cannotOpen }
    let ofNobody : Act := .ask (.recordUse none 2 "a" ⟨1, 0, by decide⟩)
    (∀ s ∈ [first, both, astray, barred], ∀ f ∈ s.faults,
      f.table = .recents → f.event ≠ .update) ∧
    (run .sqlite again first (.ask (.removeUser 1))).2.tables.users = some [] ∧
    (run .postgres again first (.ask (.removeUser 1))).2.tables.users =
      some [⟨1, .text "u"⟩] ∧
    (run .sqlite beside both (.ask (.removeUser 1))).1.getLast? =
      some (.asked (.error (.storage (.struck "b")))) ∧
    (run .postgres beside both (.ask (.removeUser 1))).1.getLast? =
      some (.asked (.error (.storage (.struck "a")))) ∧
    (run .sqlite [] astray (.join .sqlite)).1.getLast? =
      some (.joined (.error (.dialect .sqlite (.noSuchColumn "NEW.colour")))) ∧
    (run .postgres [] astray (.join .postgres)).1.getLast? =
      some (.joined (.error (.dialect .postgres (.noSuchColumn "NEW.colour")))) ∧
    (run .sqlite [] barred ofNobody).1.getLast? = some (.asked (.error (.storage .cannotOpen))) ∧
    (run .postgres [] barred ofNobody).1.getLast? =
      some (.asked (.error (.storage .noParentRow))) := by
  refine ⟨by decide, ?_, ?_, ?_, ?_, ?_, ?_, ?_, ?_⟩ <;> cbv

end Pinboard.Store
