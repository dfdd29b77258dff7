import Pinboard.Proofs.Effect

/-!
# All or nothing

A request that is refused leaves the tables as they were, and one that is granted has done what it
would have done undisturbed: no failure of a single row, and no lock, is swallowed on the way. The
second half goes gate by gate: whatever faults and locks let pass, passes without them too, and no
row depends on a gate otherwise.
-/

namespace Pinboard.Store

/-! ## Gates -/

/-- The same circumstances without faults and without the lock. -/
def Setting.undisturbed (s : Setting) : Setting := { s with faults := [], lock := .none }

/-- The same knowledge without faults. -/
def Schema.faultless (k : Schema) : Schema := { k with faults := [] }

/-- A need that is met is met without faults too. -/
def Indifferent (needs : Schema → Except StorageError Unit) : Prop :=
  ∀ k, needs k = .ok () → needs k.faultless = .ok ()

theorem sound_faultless (k : Schema) (table : Table) (event : RowEvent) :
    k.faultless.sound table event = .ok () := rfl

theorem requireTable_indifferent (table : Table) : Indifferent (requireTable · table) :=
  fun _ h => h

theorem requireFor_indifferent (table : Table) (event : RowEvent) :
    Indifferent (requireFor · table event) := by
  intro k h
  unfold requireFor at h ⊢
  obtain ⟨u, h1, h⟩ := except_bind_eq_ok.mp h
  refine except_bind_eq_ok.mpr ⟨u, h1, ?_⟩
  by_cases hparent : table ≠ .users ∧ event ≠ .update
  · simp only [hparent, and_self, ne_eq, not_false_eq_true, if_true] at h ⊢
    obtain ⟨v, h2, -⟩ := except_bind_eq_ok.mp h
    exact except_bind_eq_ok.mpr ⟨v, h2, sound_faultless k table event⟩
  · rw [if_neg hparent]
    exact sound_faultless k table event

theorem requireRemoval_indifferent : Indifferent requireRemoval := by
  intro k h
  obtain ⟨u, h1, -⟩ := except_bind_eq_ok.mp h
  refine except_bind_eq_ok.mpr ⟨u, requireFor_indifferent _ _ k h1, ?_⟩
  exact forM_eq_ok.mpr fun table _ => sound_faultless k table .delete

theorem requireRanking_indifferent : Indifferent requireRanking := fun _ h => h

theorem requireRecent_indifferent (strategy : Dialect.Strategy) :
    Indifferent (requireRecent strategy) := by
  intro k h
  cases strategy with
  | replace => exact requireFor_indifferent _ _ k h
  | duplicateKey => cases h
  | conflictTarget =>
    obtain ⟨u, h1, -⟩ := except_bind_eq_ok.mp h
    exact except_bind_eq_ok.mpr
      ⟨u, requireFor_indifferent _ _ k h1, sound_faultless k .recents .update⟩

namespace Setting

variable {s : Setting}

theorem beginReading_undisturbed (h : s.beginReading = .ok ()) :
    s.undisturbed.beginReading = .ok () := by
  unfold beginReading at h
  split at h
  · exact h
  · cases h

theorem beginWriting_undisturbed (h : s.beginWriting = .ok ()) :
    s.undisturbed.beginWriting = .ok () := by
  obtain ⟨u, h1, -⟩ := except_bind_eq_ok.mp h
  exact except_bind_eq_ok.mpr ⟨u, beginReading_undisturbed h1, rfl⟩

theorem beginTransaction_undisturbed (h : s.beginTransaction = .ok ()) :
    s.undisturbed.beginTransaction = .ok () := by
  unfold beginTransaction at h ⊢
  show (if s.readOnly then s.undisturbed.beginReading else s.undisturbed.beginWriting) = _
  by_cases hro : s.readOnly = true
  · rw [if_pos hro] at h ⊢
    exact beginReading_undisturbed h
  · rw [if_neg hro] at h ⊢
    exact beginWriting_undisturbed h

theorem commit_undisturbed : s.undisturbed.commit = .ok () := by
  unfold commit
  rw [show s.undisturbed.lock.admitsCommit = true from rfl, Bool.or_true, if_pos rfl]

theorem write_undisturbed {table : Table} {event : RowEvent} {row : Columns}
    (h : s.write table event row = .ok ()) : s.undisturbed.write table event row = .ok () :=
  write_eq_ok.mpr ⟨rfl, (write_eq_ok.mp h).2⟩

theorem admitsReading_undisturbed (h : s.admitsReading = true) :
    s.undisturbed.admitsReading = true := by
  unfold admitsReading at h ⊢
  cases hr : s.beginReading with
  | ok u => rw [beginReading_undisturbed hr]; rfl
  | error e =>
    rw [hr] at h
    cases h

end Setting

theorem ready_undisturbed {t : Tables} {s : Setting} {table : Table} {event : RowEvent}
    (h : t.ready s table event = .ok ()) : t.ready s.undisturbed table event = .ok () := by
  obtain ⟨u, h1, h2⟩ := except_bind_eq_ok.mp h
  exact except_bind_eq_ok.mpr ⟨u, requireFor_indifferent table event _ h1, h2⟩

theorem prepares_undisturbed {c : Connection} {s : Setting}
    {needs : Schema → Except StorageError Unit} (hn : Indifferent needs)
    (h : c.Prepares s needs) : c.Prepares s.undisturbed needs := by
  unfold Connection.Prepares Connection.prepare at h ⊢
  cases hk : needs c.known with
  | ok u => rfl
  | error e =>
    simp only [hk] at h ⊢
    by_cases hlook : (e.isDoubtful && s.admitsReading) = true
    · rw [if_pos hlook] at h
      rw [Bool.and_eq_true] at hlook
      rw [if_pos (by rw [hlook.1, Setting.admitsReading_undisturbed hlook.2]; rfl)]
      exact hn _ h
    · rw [if_neg hlook] at h
      cases h

/-! ## Statements -/

/-- Whatever one statement grants, another grants alike. -/
def Statement.Within {α : Type} (x x' : Statement α) : Prop :=
  ∀ t p, x t = .ok p → x' t = .ok p

theorem insertUser_within (s : Setting) (name : String) :
    (insertUser s none (some (.text name))).Within
      (insertUser s.undisturbed none (some (.text name))) := by
  intro t ⟨n, t'⟩ h
  obtain ⟨hr, hw, h⟩ := insertUser_eq_ok.mp h
  exact insertUser_eq_ok.mpr ⟨ready_undisturbed hr, Setting.write_undisturbed hw, h⟩

theorem insertDashboard_within (s : Setting) (owner order : Int) (name : String) :
    (insertDashboard s none (some (.integer owner)) (some (.text name))
      (some (.integer order))).Within
      (insertDashboard s.undisturbed none (some (.integer owner)) (some (.text name))
        (some (.integer order))) := by
  intro t ⟨n, t'⟩ h
  obtain ⟨hr, hw, h⟩ := insertDashboard_eq_ok.mp h
  exact insertDashboard_eq_ok.mpr ⟨ready_undisturbed hr, Setting.write_undisturbed hw, h⟩

theorem insertTag_within (s : Setting) (row : TagRow) :
    (insertTag s row).Within (insertTag s.undisturbed row) := by
  intro t ⟨u, t'⟩ h
  obtain ⟨hr, hw, h⟩ := insertTag_eq_ok.mp h
  exact insertTag_eq_ok.mpr ⟨ready_undisturbed hr, Setting.write_undisturbed hw, h⟩

theorem putRecent_within (s : Setting) (strategy : Dialect.Strategy) (row : RecentRow) :
    (putRecent s strategy row).Within (putRecent s.undisturbed strategy row) := by
  intro t ⟨u, t'⟩ h
  cases strategy with
  | replace =>
    obtain ⟨hr, hw, h⟩ := replaceRecent_eq_ok.mp h
    exact replaceRecent_eq_ok.mpr ⟨ready_undisturbed hr, Setting.write_undisturbed hw, h⟩
  | duplicateKey => cases h
  | conflictTarget =>
    obtain ⟨hr, -, hw, rows, users, hrows, husers, h⟩ := mergeRecent_eq_ok.mp h
    refine mergeRecent_eq_ok.mpr ⟨ready_undisturbed hr, sound_faultless (t.schema s) _ _,
      Setting.write_undisturbed hw, rows, users, hrows, husers, ?_⟩
    rcases h with ⟨old, hold, hw, rfl⟩ | h
    · exact Or.inl ⟨old, hold, Setting.write_undisturbed hw, rfl⟩
    · exact Or.inr h

theorem deleteUser_within (s : Setting) (id : Int) :
    (deleteUser s id).Within (deleteUser s.undisturbed id) := by
  intro t ⟨count, t'⟩ h
  obtain ⟨hr, hw, rows, hrows, hown, hcount, h⟩ := deleteUser_eq_ok.mp h
  refine deleteUser_eq_ok.mpr ⟨requireRemoval_indifferent _ hr, hw, rows, hrows,
    fun r hr hid => Setting.write_undisturbed (hown r hr hid), hcount, ?_⟩
  rcases h with h | ⟨h0, hrest, h⟩
  · exact Or.inl h
  · exact Or.inr ⟨h0, fun table htable row hrow =>
      Setting.write_undisturbed (hrest table htable row hrow), h⟩

theorem deleteDashboard_within (s : Setting) (owner id : Int) :
    (deleteDashboard s owner id).Within (deleteDashboard s.undisturbed owner id) := by
  intro t ⟨count, t'⟩ h
  obtain ⟨hr, rows, hrows, hwrite, h⟩ := deleteDashboard_eq_ok.mp h
  exact deleteDashboard_eq_ok.mpr ⟨ready_undisturbed hr, rows, hrows, fun r hr hid howner =>
    Setting.write_undisturbed (hwrite r hr hid howner), h⟩

theorem deleteTag_within (s : Setting) (owner : Int) (key : Cell) :
    (deleteTag s owner key).Within (deleteTag s.undisturbed owner key) := by
  intro t ⟨count, t'⟩ h
  obtain ⟨hr, rows, hrows, hwrite, h⟩ := deleteTag_eq_ok.mp h
  exact deleteTag_eq_ok.mpr ⟨ready_undisturbed hr, rows, hrows, fun r hr howner hkey =>
    Setting.write_undisturbed (hwrite r hr howner hkey), h⟩

theorem deleteRecent_within (s : Setting) (owner : Int) (key : Cell) :
    (deleteRecent s owner key).Within (deleteRecent s.undisturbed owner key) := by
  intro t ⟨count, t'⟩ h
  obtain ⟨hr, rows, hrows, hwrite, h⟩ := deleteRecent_eq_ok.mp h
  exact deleteRecent_eq_ok.mpr ⟨ready_undisturbed hr, rows, hrows, fun r hr hfor =>
    Setting.write_undisturbed (hwrite r hr hfor), h⟩

theorem setOrder_within (s : Setting) (chosen : DashboardRow → Bool) (position : Int) :
    (setOrder s chosen (some (.integer position))).Within
      (setOrder s.undisturbed chosen (some (.integer position))) := by
  intro t ⟨count, t'⟩ h
  obtain ⟨hr, rows, hrows, hwrite, h⟩ := setOrder_eq_ok.mp h
  exact setOrder_eq_ok.mpr ⟨ready_undisturbed hr, rows, hrows, fun r hr hchosen =>
    Setting.write_undisturbed (hwrite r hr hchosen), h⟩

/-! ## Steps -/

namespace Steps

variable {α β : Type}

/-- Whatever some steps grant, others grant alike, however many rows were changed before. -/
def Within (x x' : Steps α) : Prop :=
  ∀ t n m p, (x t n).1 = .ok p → (x' t m).1 = .ok p

theorem Within.bind {x x' : Steps α} {f f' : α → Steps β} (hx : x.Within x')
    (hf : ∀ a, (f a).Within (f' a)) : (x >>= f).Within (x' >>= f') := by
  intro t n m ⟨b, t'⟩ h
  obtain ⟨a, u, h1, h2⟩ := bind_eq_ok.mp h
  exact bind_eq_ok.mpr ⟨a, u, hx t n m _ h1, hf a u _ _ _ h2⟩

theorem Within.pure (a : α) : (Pure.pure a : Steps α).Within (Pure.pure a) := by
  intro t n m ⟨b, t'⟩ h
  exact pure_eq_ok.mpr (pure_eq_ok.mp h)

theorem Within.refuse (r : Refusal) (x : Steps α) : (Steps.refuse r : Steps α).Within x :=
  fun _ _ _ _ h => absurd h refuse_ne_ok

theorem Within.ask (f : Tables → Except StorageError α) : (ask f).Within (ask f) := by
  intro t n m ⟨a, t'⟩ h
  exact ask_eq_ok.mpr (ask_eq_ok.mp h)

theorem Within.tryWith {blame : StorageError → Refusal} {count : α → Nat} {x x' : Statement α}
    (h : x.Within x') : (tryWith blame count x).Within (tryWith blame count x') := by
  intro t n m ⟨a, t'⟩ hx
  exact tryWith_eq_ok.mpr (h t _ (tryWith_eq_ok.mp hx))

end Steps

theorem writePositions_within (s : Setting) (owner : UserId) (ids : List UInt32) :
    ∀ i, (writePositions s owner i ids).Within (writePositions s.undisturbed owner i ids) := by
  induction ids with
  | nil => exact fun _ => .pure ()
  | cons id ids ih =>
    exact fun i => .bind (.tryWith (setOrder_within s _ _)) fun _ => ih (i + 1)

theorem renumber_within (s : Setting) (owner : UserId) :
    (renumber s owner).Within (renumber s.undisturbed owner) :=
  .bind (.ask _) fun ids => writePositions_within s owner ids 0

/-! ## Operations -/

namespace Operation

variable {α β : Type}

/-- Whatever one operation grants, another grants alike, and leaves the same tables. -/
def Within (op op' : Operation α) : Prop :=
  ∀ c a t, op.Yields c a t → op'.Yields c a t

theorem Within.map {op op' : Operation α} (f : α → β) (h : op.Within op') :
    (op.map f).Within (op'.map f) := by
  intro c b t hb
  obtain ⟨a, ha, hf⟩ := map_yields.mp hb
  exact map_yields.mpr ⟨a, h c a t ha, hf⟩

theorem Within.judge {op op' : Operation α} (verdict : α → Except Refusal β)
    (h : op.Within op') : (op.judge verdict).Within (op'.judge verdict) := by
  intro c b t hb
  obtain ⟨a, ha, hv⟩ := judge_yields.mp hb
  exact judge_yields.mpr ⟨a, h c a t ha, hv⟩

end Operation

section Gates

variable {α : Type} {s : Setting} {needs : Schema → Except StorageError Unit} {x x' : Steps α}

theorem transactionIf_within (lasts : α → Bool) (hx : x.Within x') :
    (transactionIf s lasts x).Within (transactionIf s.undisturbed lasts x') := by
  intro c a t h
  obtain ⟨hb, u, hs, h⟩ := transactionIf_yields.mp h
  refine transactionIf_yields.mpr
    ⟨Setting.beginTransaction_undisturbed hb, u, hx _ _ _ _ hs, ?_⟩
  rcases h with ⟨hl, -, ht⟩ | h
  · exact Or.inl ⟨hl, Setting.commit_undisturbed, ht⟩
  · exact Or.inr h

theorem transactionFrom_within (hn : Indifferent needs) (hx : x.Within x') :
    (transactionFrom s needs x).Within (transactionFrom s.undisturbed needs x') := by
  intro c a t h
  obtain ⟨hb, hp, hw, hs, -⟩ := transactionFrom_yields.mp h
  exact transactionFrom_yields.mpr ⟨Setting.beginTransaction_undisturbed hb,
    prepares_undisturbed hn hp, hw, hx _ _ _ _ hs, Setting.commit_undisturbed⟩

theorem autocommit_within (rowwise : Bool) (hn : Indifferent needs) (hx : x.Within x') :
    (autocommit s rowwise needs x).Within (autocommit s.undisturbed rowwise needs x') := by
  intro c a t h
  obtain ⟨hp, hw, hb, hneeds, hs, -⟩ := autocommit_yields.mp h
  exact autocommit_yields.mpr ⟨prepares_undisturbed hn hp, hw,
    Setting.beginWriting_undisturbed hb, hn _ hneeds, hx _ _ _ _ hs,
    Setting.commit_undisturbed⟩

theorem inspect_within (hn : Indifferent needs) (question : Tables → Except Refusal α) :
    (inspect s needs question).Within (inspect s.undisturbed needs question) := by
  intro c a t h
  obtain ⟨hp, hb, hneeds, h⟩ := inspect_yields.mp h
  exact inspect_yields.mpr ⟨prepares_undisturbed hn hp, Setting.beginReading_undisturbed hb,
    hn _ hneeds, h⟩

end Gates

/-! ## Requests -/

/-- A request that reports its failures is granted undisturbed as well, with the same answer, and
leaves the same tables. -/
theorem run_within (s : Setting) (own : Dialect.Strategy) {r : Request}
    (hr : r.carriesOn = false) : (r.run s own).Within (r.run s.undisturbed own) := by
  cases r with
  | createUser name =>
    refine .map _ ?_
    unfold createUser
    split
    · exact fun _ _ _ h => h
    · exact autocommit_within true (requireFor_indifferent _ _)
        (.bind (.tryWith (insertUser_within s name)) fun _ => .pure _)
  | removeUser id =>
    exact .map _ (.judge _ (autocommit_within true requireRemoval_indifferent
      (.tryWith (deleteUser_within s _))))
  | createDashboard draft =>
    refine .map _ ?_
    unfold createDashboard
    split
    · exact fun _ _ _ h => h
    · exact transactionIf_within _ (.bind (.ask _) fun _ =>
        .bind (.tryWith (insertDashboard_within s _ _ _)) fun _ => .pure _)
  | moveDashboard owner id d =>
    refine .map _ (transactionIf_within _ (.bind (.ask _) fun ids => ?_))
    split
    · exact .pure false
    · exact .bind (writePositions_within s owner _ 0) fun _ => .pure true
  | reindexDashboards owner => exact .map _ (transactionIf_within _ (renumber_within s owner))
  | removeDashboard owner id =>
    refine .map _ (transactionFrom_within (requireFor_indifferent _ _)
      (.bind (.tryWith (deleteDashboard_within s _ _)) fun count => ?_))
    by_cases h0 : count = 0
    · rw [if_pos h0, if_pos h0]
      exact .refuse _ _
    · rw [if_neg h0, if_neg h0]
      exact renumber_within s owner
  | createTag tag =>
    refine .map _ ?_
    unfold createTag
    split
    · exact fun _ _ _ h => h
    · exact autocommit_within true (requireFor_indifferent _ _)
        (.bind (.tryWith (insertTag_within s _)) fun _ => .pure _)
  | removeTag owner key =>
    refine .map _ (transactionFrom_within (requireFor_indifferent _ _)
      (.bind (.tryWith (deleteTag_within s _ _)) fun count => ?_))
    by_cases h0 : count = 0
    · rw [if_pos h0, if_pos h0]
      exact .refuse _ _
    · rw [if_neg h0, if_neg h0]
      exact .bind (.tryWith (deleteRecent_within s _ _)) fun _ => .pure ()
  | recordUse strategy owner key moment =>
    exact .map _ (autocommit_within true (requireRecent_indifferent _)
      (.tryWith (putRecent_within s _ _)))
  | recordUses strategy owner keys moment => cases hr
  | findUser id => exact .map _ (inspect_within (requireTable_indifferent _) _)
  | findDashboard owner id => exact .map _ (inspect_within (requireTable_indifferent _) _)
  | listDashboards owner => exact .map _ (inspect_within (requireTable_indifferent _) _)
  | findTag owner key => exact .map _ (inspect_within (requireTable_indifferent _) _)
  | listTags owner => exact .map _ (inspect_within (requireTable_indifferent _) _)
  | rankTags owner => exact .map _ (inspect_within requireRanking_indifferent _)
  | findUse owner key => exact .map _ (inspect_within (requireTable_indifferent _) _)

/-- All or nothing: a refusal leaves every table and every counter as it was, and an answer and the
tables it leaves are those of the same request without faults and without a lock. -/
theorem all_or_nothing (s : Setting) (own : Dialect.Strategy) (c : Connection) {r : Request}
    (hr : r.carriesOn = false) :
    (∀ e, (r.run s own c).1 = .error e → (r.run s own c).2.tables = c.tables) ∧
      ∀ a, (r.run s own c).1 = .ok a → (r.run s.undisturbed own c).1 = .ok a ∧
        (r.run s.undisturbed own c).2.tables = (r.run s own c).2.tables :=
  ⟨run_atomic s own r c, fun a ha => run_within s own hr c a _ ⟨ha, rfl⟩⟩

/-- A tag is not removed where its use cannot be forgotten, though the definition goes first. -/
theorem all_or_nothing_removeTag : ∃ (s : Setting) (c : Connection) (e : Refusal),
    ((Request.removeTag 1 "a").run s .replace c).1 = .error e ∧
      ((Request.removeTag 1 "a").run s .replace c).2.tables = c.tables := by
  refine ⟨{ faults := [⟨1, .recents, .delete, none, "stop"⟩] },
    ⟨{ Tables.fresh with
      users := some [⟨1, .text "u"⟩]
      tags := some [⟨1, 1, .text "a", .text "red", .text "basic"⟩]
      recents := some [⟨1, 1, .text "a", .integer 5⟩] }, {}, 0⟩, .storage (.struck "stop"), ?_⟩
  exact ⟨rfl, (all_or_nothing _ _ _ rfl).1 (.storage (.struck "stop")) rfl⟩

end Pinboard.Store
