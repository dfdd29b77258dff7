import Pinboard.Proofs.Uses

/-!
# Ledgers that tell the same

Two databases are `Alike` if they differ at most in the order and the numbers of the rows in the
ledger. What does not reach into the ledger runs in lockstep on both: `Statement.Aloof` says that a
statement neither reads the ledger nor changes it, and `Tally` that two outcomes agree. Operations
put together from steps in lockstep run in lockstep themselves.
-/

namespace Pinboard.Store

/-! ## Databases that are alike -/

namespace Tables

/-- The tables with another ledger. -/
def withRecents (t : Tables) (r : Option (List RecentRow)) : Tables := { t with recents := r }

/-- The tables are the same, up to the order and the numbers of the rows in the ledger. -/
structure Alike (t t' : Tables) : Prop where
  /-- The other tables and the counters are the same. -/
  rest : t' = t.withRecents t'.recents
  /-- There is a ledger in both, or in neither. -/
  there : t'.recents.isSome = t.recents.isSome
  /-- The ledgers hold the same for each key. -/
  uses : ∀ owner key, t'.useOf? owner key = t.useOf? owner key
  /-- No key comes twice in the one. -/
  slots : (t.uses.map (·.slot)).Nodup
  /-- No key comes twice in the other. -/
  slots' : (t'.uses.map (·.slot)).Nodup

theorem withRecents_self (t : Tables) : t.withRecents t.recents = t := rfl

theorem withRecents_present {t : Tables} {r : Option (List RecentRow)}
    (hr : r.isSome = t.recents.isSome) : (t.withRecents r).present = t.present :=
  present_congr rfl rfl rfl hr rfl

theorem withRecents_ready {t : Tables} {r : Option (List RecentRow)}
    (hr : r.isSome = t.recents.isSome) (s : Setting) (table : Table) (event : RowEvent) :
    (t.withRecents r).ready s table event = t.ready s table event := by
  unfold ready schema
  rw [withRecents_present hr]

theorem Alike.refl {t : Tables} (h : (t.uses.map (·.slot)).Nodup) : t.Alike t :=
  ⟨rfl, rfl, fun _ _ => rfl, h, h⟩

theorem Alike.present {t t' : Tables} (h : t.Alike t') : t'.present = t.present := by
  rw [h.rest]
  exact withRecents_present h.there

theorem Alike.schema {t t' : Tables} (h : t.Alike t') (s : Setting) :
    t'.schema s = t.schema s := by
  unfold Tables.schema
  rw [h.present]

/-- Only what the ledgers hold counts. -/
theorem Alike.of_uses {t t' u u' : Tables} (h : t.Alike t') (hrest : u' = u.withRecents u'.recents)
    (hthere : u'.recents.isSome = u.recents.isSome) (hu : u.uses = t.uses)
    (hu' : u'.uses = t'.uses) : u.Alike u' := by
  refine ⟨hrest, hthere, fun owner key => ?_, ?_, ?_⟩
  · have huse := h.uses owner key
    unfold Tables.useOf? at huse ⊢
    rw [hu, hu']
    exact huse
  · rw [hu]
    exact h.slots
  · rw [hu']
    exact h.slots'

/-- What becomes of the other tables and the counters makes ledgers no less alike. -/
theorem Alike.frame {t t' u : Tables} (h : t.Alike t') (hu : u.recents = t.recents) :
    u.Alike (u.withRecents t'.recents) := by
  refine h.of_uses rfl ?_ ?_ rfl
  · rw [hu]
    exact h.there
  · unfold Tables.uses
    rw [hu]

/-- A ledger is there in both databases or in neither. -/
theorem Alike.ledgers {t t' : Tables} (h : t.Alike t') :
    (t.recents = none ∧ t'.recents = none) ∨
      ∃ rows rows', t.recents = some rows ∧ t'.recents = some rows' := by
  have hthere := h.there
  cases hr : t.recents with
  | none =>
    rw [hr, Option.isSome_none, Option.isSome_eq_false_iff, Option.isNone_iff_eq_none] at hthere
    exact Or.inl ⟨rfl, hthere⟩
  | some rows =>
    rw [hr] at hthere
    obtain ⟨rows', hr'⟩ := Option.isSome_iff_exists.mp hthere
    exact Or.inr ⟨rows, rows', rfl, hr'⟩

end Tables

/-! ## Outcomes that agree -/

/-- Two outcomes agree: both are granted, with answers that `R` relates, or both are refused, for
causes that `E` relates. -/
inductive Tally {ε α : Type} (E : ε → ε → Prop) (R : α → α → Prop) :
    Except ε α → Except ε α → Prop where
  /-- Both are granted. -/
  | ok {a b : α} (h : R a b) : Tally E R (.ok a) (.ok b)
  /-- Both are refused. -/
  | error {e e' : ε} (h : E e e') : Tally E R (.error e) (.error e')

/-- The same answer, and databases that are alike. -/
def SameBeside {α : Type} (p p' : α × Tables) : Prop := p.1 = p'.1 ∧ p.2.Alike p'.2

namespace Tally

variable {ε α β : Type} {E : ε → ε → Prop} {R : α → α → Prop}

theorem of_eq (hE : ∀ e, E e e) (hR : ∀ a, R a a) (x : Except ε α) : Tally E R x x := by
  cases x with
  | ok a => exact .ok (hR a)
  | error e => exact .error (hE e)

theorem mono {E' : ε → ε → Prop} {x x' : Except ε α} (hE : ∀ e e', E e e' → E' e e')
    (h : Tally E R x x') : Tally E' R x x' := by
  cases h with
  | ok h => exact .ok h
  | error h => exact .error (hE _ _ h)

theorem bind {R' : β → β → Prop} {x x' : Except ε α} {f f' : α → Except ε β}
    (hx : Tally E R x x') (hf : ∀ a b, R a b → Tally E R' (f a) (f' b)) :
    Tally E R' (x >>= f) (x' >>= f') := by
  cases hx with
  | ok h => exact hf _ _ h
  | error h => exact .error h

/-- What comes first is the same for both, so only what follows has to agree. -/
theorem bind_same {R' : β → β → Prop} (hE : ∀ e, E e e) (x : Except ε α)
    {f f' : α → Except ε β} (hf : ∀ a, x = .ok a → Tally E R' (f a) (f' a)) :
    Tally E R' (x >>= f) (x >>= f') := by
  cases x with
  | ok a => exact hf a rfl
  | error e => exact .error (hE e)

end Tally

theorem Tables.Alike.recentRows {t t' : Tables} (ht : t.Alike t') :
    Tally Eq (fun rows rows' => t.recents = some rows ∧ t'.recents = some rows') t.recentRows
      t'.recentRows := by
  unfold Tables.recentRows
  rcases ht.ledgers with ⟨h, h'⟩ | ⟨rows, rows', h, h'⟩
  · rw [h, h']
    exact .error rfl
  · rw [h, h']
    exact .ok ⟨rfl, rfl⟩

/-! ## Statements -/

namespace Statement

variable {α : Type}

/-- A statement neither reads the ledger nor changes it. -/
def Aloof (x : Statement α) : Prop :=
  ∀ (t : Tables) r, r.isSome = t.recents.isSome →
    x (t.withRecents r) = (fun p => (p.1, p.2.withRecents r)) <$> x t

/-- Two statements agree on databases that are alike. -/
def Together (E : StorageError → StorageError → Prop) (x x' : Statement α) : Prop :=
  ∀ t t', t.Alike t' → Tally E SameBeside (x t) (x' t')

theorem Aloof.recents_eq {x : Statement α} (h : x.Aloof) {t u : Tables} {a : α}
    (hx : x t = .ok (a, u)) : u.recents = t.recents := by
  have heq := h t t.recents rfl
  rw [Tables.withRecents_self, hx] at heq
  have hpair : (a, u) = (a, u.withRecents t.recents) := Except.ok.inj heq
  have hu : u = u.withRecents t.recents := (Prod.mk.inj hpair).2
  rw [hu]
  rfl

/-- What does not reach into the ledger agrees with itself on databases that are alike. -/
theorem Aloof.together {x : Statement α} (h : x.Aloof) : Together Eq x x := by
  intro t t' ht
  have heq := h t t'.recents ht.there
  rw [← ht.rest] at heq
  rw [heq]
  cases hx : x t with
  | error e => exact .error rfl
  | ok p => exact .ok ⟨rfl, ht.frame (h.recents_eq hx)⟩

end Statement

theorem insertUser_aloof (s : Setting) (id name : Given) : (insertUser s id name).Aloof := by
  intro t r hr
  simp only [insertUser, Statement.get_bind_apply, Statement.lift_bind_apply,
    Tables.withRecents_ready hr, map_bind]
  rfl

theorem insertDashboard_aloof (s : Setting) (id owner name order : Given) :
    (insertDashboard s id owner name order).Aloof := by
  intro t r hr
  simp only [insertDashboard, Statement.get_bind_apply, Statement.lift_bind_apply,
    Tables.withRecents_ready hr, map_bind]
  rfl

theorem insertTag_aloof (s : Setting) (row : TagRow) : (insertTag s row).Aloof := by
  intro t r hr
  simp only [insertTag, Statement.get_bind_apply, Statement.lift_bind_apply,
    Tables.withRecents_ready hr, map_bind]
  rfl

theorem deleteDashboard_aloof (s : Setting) (owner id : Int) :
    (deleteDashboard s owner id).Aloof := by
  intro t r hr
  simp only [deleteDashboard, Statement.get_bind_apply, Statement.lift_bind_apply,
    Tables.withRecents_ready hr, map_bind]
  rfl

theorem deleteTag_aloof (s : Setting) (owner : Int) (key : Cell) :
    (deleteTag s owner key).Aloof := by
  intro t r hr
  simp only [deleteTag, Statement.get_bind_apply, Statement.lift_bind_apply,
    Tables.withRecents_ready hr, map_bind]
  rfl

theorem setOrder_aloof (s : Setting) (chosen : DashboardRow → Bool) (order : Given) :
    (setOrder s chosen order).Aloof := by
  intro t r hr
  simp only [setOrder, Statement.get_bind_apply, Statement.lift_bind_apply,
    Tables.withRecents_ready hr, map_bind]
  rfl

/-! ## Steps -/

namespace Steps

variable {α β : Type} {E : Refusal → Refusal → Prop}

/-- Steps agree on two databases, however many rows were changed before. -/
def TogetherAt (E : Refusal → Refusal → Prop) (x x' : Steps α) (t t' : Tables) : Prop :=
  ∀ n n', Tally E SameBeside (x t n).1 (x' t' n').1

/-- Steps agree on databases that are alike. -/
def Together (E : Refusal → Refusal → Prop) (x x' : Steps α) : Prop :=
  ∀ t t', t.Alike t' → TogetherAt E x x' t t'

theorem TogetherAt.bind {x x' : Steps α} {f f' : α → Steps β} {t t' : Tables}
    (hx : TogetherAt E x x' t t') (hf : ∀ a, Together E (f a) (f' a)) :
    TogetherAt E (x >>= f) (x' >>= f') t t' := by
  intro n n'
  rw [bind_fst, bind_fst]
  refine (hx n n').bind fun p p' hp => ?_
  obtain ⟨a, u⟩ := p
  obtain ⟨b, u'⟩ := p'
  obtain ⟨hab, hu⟩ := hp
  cases hab
  exact hf a u u' hu _ _

theorem Together.bind {x x' : Steps α} {f f' : α → Steps β} (hx : Together E x x')
    (hf : ∀ a, Together E (f a) (f' a)) : Together E (x >>= f) (x' >>= f') :=
  fun t t' ht => (hx t t' ht).bind hf

theorem Together.pure (a : α) : Together E (Pure.pure a : Steps α) (Pure.pure a) :=
  fun _ _ ht _ _ => .ok ⟨rfl, ht⟩

theorem Together.refuse (hE : ∀ r, E r r) (r : Refusal) :
    Together E (Steps.refuse r : Steps α) (Steps.refuse r) :=
  fun _ _ _ _ _ => .error (hE r)

/-- A question that does not reach into the ledger. -/
theorem Together.ask (hE : ∀ r, E r r) {f : Tables → Except StorageError α}
    (hf : ∀ (t : Tables) r, f (t.withRecents r) = f t) : Together E (ask f) (ask f) := by
  intro t t' ht n n'
  have heq : f t' = f t := by rw [ht.rest, hf]
  unfold Steps.ask
  rw [heq]
  cases f t with
  | ok a => exact .ok ⟨rfl, ht⟩
  | error e => exact .error (hE _)

theorem TogetherAt.tryWith {E' : StorageError → StorageError → Prop}
    {blame : StorageError → Refusal} {count : α → Nat} {x x' : Statement α} {t t' : Tables}
    (hE : ∀ e e', E' e e' → E (blame e) (blame e')) (h : Tally E' SameBeside (x t) (x' t')) :
    TogetherAt E (tryWith blame count x) (tryWith blame count x') t t' := by
  intro n n'
  unfold Steps.tryWith
  generalize x t = outcome at h ⊢
  generalize x' t' = outcome' at h ⊢
  cases h with
  | ok h => exact .ok h
  | error h => exact .error (hE _ _ h)

theorem TogetherAt.define (hE : ∀ r, E r r) {x x' : Statement α} {t t' : Tables}
    (h : Tally Eq SameBeside (x t) (x' t')) : TogetherAt E (define x) (define x') t t' := by
  intro n n'
  unfold Steps.define
  generalize x t = outcome at h ⊢
  generalize x' t' = outcome' at h ⊢
  cases h with
  | ok h => exact .ok h
  | error h =>
    cases h
    exact .error (hE _)

theorem Together.tryWith (hE : ∀ r, E r r) (blame : StorageError → Refusal) (count : α → Nat)
    {x x' : Statement α} (h : x.Together Eq x') :
    Together E (tryWith blame count x) (tryWith blame count x') :=
  fun t t' ht => .tryWith (fun e e' (he : e = e') => by rw [he]; exact hE _) (h t t' ht)

end Steps

section Renumber

variable {E : Refusal → Refusal → Prop}

theorem writePositions_together (hE : ∀ r, E r r) (s : Setting) (owner : UserId)
    (ids : List UInt32) :
    ∀ i, Steps.Together E (writePositions s owner i ids) (writePositions s owner i ids) := by
  induction ids with
  | nil => exact fun _ => .pure ()
  | cons id ids ih =>
    exact fun i => .bind (.tryWith hE _ _ (setOrder_aloof s _ _).together) fun _ => ih (i + 1)

theorem renumber_together (hE : ∀ r, E r r) (s : Setting) (owner : UserId) :
    Steps.Together E (renumber s owner) (renumber s owner) :=
  .bind (.ask hE fun _ _ => rfl) fun ids => writePositions_together hE s owner ids 0

end Renumber

/-! ## Operations -/

/-- Two connections know the same of databases that are alike. -/
structure Connection.Alike (c c' : Connection) : Prop where
  /-- The databases are alike. -/
  tables : c.tables.Alike c'.tables
  /-- The same is remembered. -/
  known : c'.known = c.known

namespace Operation

variable {α β : Type} {E : Refusal → Refusal → Prop}

/-- Two operations have answered alike, and leave connections alike. -/
structure Concur (E : Refusal → Refusal → Prop) (R : α → α → Prop)
    (p p' : Except Refusal α × Connection) : Prop where
  /-- The answers are related, or the refusals are. -/
  answer : Tally E R p.1 p'.1
  /-- The connections are alike. -/
  left : p.2.Alike p'.2

theorem Concur.map {R : β → β → Prop} (hR : ∀ b, R b b) {op op' : Operation α}
    {c c' : Connection} (f : α → β) (h : Concur E Eq (op c) (op' c')) :
    Concur E R (op.map f c) (op'.map f c') := by
  obtain ⟨ha, hl⟩ := h
  unfold Operation.map
  generalize op c = p at ha hl ⊢
  generalize op' c' = p' at ha hl ⊢
  obtain ⟨x, c1⟩ := p
  obtain ⟨x', c1'⟩ := p'
  cases ha with
  | ok h =>
    cases h
    exact ⟨.ok (hR _), hl⟩
  | error h => exact ⟨.error h, hl⟩

theorem Concur.judge (hE : ∀ r, E r r) {op op' : Operation α} {c c' : Connection}
    (verdict : α → Except Refusal β) (h : Concur E Eq (op c) (op' c')) :
    Concur E Eq (op.judge verdict c) (op'.judge verdict c') := by
  obtain ⟨ha, hl⟩ := h
  unfold Operation.judge
  generalize op c = p at ha hl ⊢
  generalize op' c' = p' at ha hl ⊢
  obtain ⟨x, c1⟩ := p
  obtain ⟨x', c1'⟩ := p'
  cases ha with
  | ok h =>
    cases h
    exact ⟨.of_eq hE (fun _ => rfl) _, hl⟩
  | error h => exact ⟨.error h, hl⟩

theorem Concur.refused (hE : ∀ r, E r r) (r : Refusal) {c c' : Connection} (hc : c.Alike c') :
    Concur E Eq ((refused r : Operation α) c) (refused r c') :=
  ⟨.error (hE r), hc⟩

end Operation

section Concur

variable {α : Type} {E : Refusal → Refusal → Prop} {s : Setting}
  {needs needs' : Schema → Except StorageError Unit} {x x' : Steps α} {c c' : Connection}

theorem Connection.Alike.look (hc : c.Alike c') (n n' : Nat) :
    Connection.Alike { c.look s with changed := n } { c'.look s with changed := n' } :=
  ⟨hc.tables, hc.tables.schema s⟩

/-- Needs that agree on what is remembered and on what is there are met alike. -/
theorem prepare_alike (hc : c.Alike c') (hknown : needs' c.known = needs c.known)
    (hthere : needs' (c.tables.schema s) = needs (c.tables.schema s)) :
    (c'.prepare s needs').1 = (c.prepare s needs).1 ∧
      (c.prepare s needs).2.Alike (c'.prepare s needs').2 := by
  unfold Connection.prepare
  rw [hc.known, hknown, hc.tables.schema s, hthere]
  cases needs c.known with
  | ok u => exact ⟨rfl, hc⟩
  | error e =>
    dsimp only
    split
    · exact ⟨rfl, hc.look c.changed c'.changed⟩
    · exact ⟨rfl, hc⟩

theorem runSteps_concur (hE : ∀ r, E r r) (lasts : α → Bool) (hc : c.Alike c')
    (hx : x.TogetherAt E x' c.tables c'.tables) :
    Operation.Concur E Eq (runSteps s lasts x c) (runSteps s lasts x' c') := by
  have htally := hx c.changed c'.changed
  unfold runSteps
  generalize x c.tables c.changed = p at htally ⊢
  generalize x' c'.tables c'.changed = p' at htally ⊢
  obtain ⟨result, n⟩ := p
  obtain ⟨result', n'⟩ := p'
  cases htally with
  | error h => exact ⟨.error h, hc.look n n'⟩
  | @ok q q' h =>
    obtain ⟨a, u⟩ := q
    obtain ⟨b, u'⟩ := q'
    obtain ⟨hab, hu⟩ := h
    cases hab
    dsimp only
    by_cases hl : lasts a = true
    · rw [if_pos hl, if_pos hl]
      cases s.commit with
      | ok v => exact ⟨.ok rfl, hu, hu.schema s⟩
      | error e => exact ⟨.error (hE _), hc.look n n'⟩
    · rw [if_neg hl, if_neg hl]
      exact ⟨.ok rfl, hc.look n n'⟩

theorem transactionIf_concur (hE : ∀ r, E r r) (lasts : α → Bool) (hc : c.Alike c')
    (hx : x.TogetherAt E x' c.tables c'.tables) :
    Operation.Concur E Eq (transactionIf s lasts x c) (transactionIf s lasts x' c') := by
  unfold transactionIf
  cases s.beginTransaction with
  | error e => exact ⟨.error (hE _), hc⟩
  | ok u => exact runSteps_concur hE lasts hc hx

theorem transactionFrom_concur (hE : ∀ r, E r r) (hc : c.Alike c') (hx : x.Together E x') :
    Operation.Concur E Eq (transactionFrom s needs x c) (transactionFrom s needs x' c') := by
  obtain ⟨hp, hl⟩ : _ ∧ (c.prepare s needs).2.Alike (c'.prepare s needs).2 :=
    prepare_alike hc rfl rfl
  unfold transactionFrom
  cases s.beginTransaction with
  | error e => exact ⟨.error (hE _), hc⟩
  | ok u =>
    dsimp only
    generalize c.prepare s needs = p at hp hl ⊢
    generalize c'.prepare s needs = p' at hp hl ⊢
    obtain ⟨result, c1⟩ := p
    obtain ⟨result', c1'⟩ := p'
    obtain rfl : result' = result := hp
    cases result' with
    | error e => exact ⟨.error (hE _), hl⟩
    | ok v =>
      cases s.permitWriting with
      | error e => exact ⟨.error (hE _), hl⟩
      | ok v => exact runSteps_concur hE _ hl (hx _ _ hl.tables)

/-- The needs of the two may differ, as long as they agree on what is remembered and on what is
there. -/
theorem autocommit_concur (hE : ∀ r, E r r) (rowwise : Bool) (hc : c.Alike c')
    (hknown : needs' c.known = needs c.known)
    (hthere : needs' (c.tables.schema s) = needs (c.tables.schema s))
    (hx : x.TogetherAt E x' c.tables c'.tables) :
    Operation.Concur E Eq (autocommit s rowwise needs x c) (autocommit s rowwise needs' x' c') := by
  obtain ⟨hp, hl⟩ := prepare_alike hc hknown hthere
  have hkeep := (c.prepare_keeps s needs).1
  have hkeep' := (c'.prepare_keeps s needs').1
  unfold autocommit
  generalize c.prepare s needs = p at hp hl hkeep ⊢
  generalize c'.prepare s needs' = p' at hp hl hkeep' ⊢
  obtain ⟨result, c1⟩ := p
  obtain ⟨result', c1'⟩ := p'
  obtain rfl : result' = result := hp
  have hfailed : Connection.Alike (if rowwise then { c1 with changed := 0 } else c1)
      (if rowwise then { c1' with changed := 0 } else c1') := by
    cases rowwise
    · exact hl
    · exact ⟨hl.tables, hl.known⟩
  dsimp only at hkeep hkeep'
  have hneeds : needs' (c1'.tables.schema s) = needs (c1.tables.schema s) := by
    rw [hl.tables.schema s, hkeep, hthere]
  cases result' with
  | error e => exact ⟨.error (hE _), hl⟩
  | ok v =>
    dsimp only
    rw [hneeds]
    cases s.permitWriting with
    | error e => exact ⟨.error (hE _), hfailed⟩
    | ok u =>
      cases s.beginWriting with
      | error e => exact ⟨.error (hE _), hfailed⟩
      | ok u =>
        cases needs (c1.tables.schema s) with
        | error e => exact ⟨.error (hE _), hl.look c1.changed c1'.changed⟩
        | ok u =>
          have hran : Operation.Concur E Eq (runSteps s (fun _ => true) x c1)
              (runSteps s (fun _ => true) x' c1') :=
            runSteps_concur hE _ hl (by rwa [hkeep, hkeep'])
          dsimp only
          generalize runSteps s (fun _ => true) x c1 = ran at hran ⊢
          generalize runSteps s (fun _ => true) x' c1' = ran' at hran ⊢
          obtain ⟨result, c2⟩ := ran
          obtain ⟨result', c2'⟩ := ran'
          obtain ⟨ha, hleft⟩ := hran
          dsimp only at ha hleft
          cases ha with
          | ok h => exact ⟨.ok h, hleft⟩
          | error h =>
            refine ⟨.error h, ?_⟩
            cases rowwise
            · exact hleft
            · exact ⟨hleft.tables, hleft.known⟩

theorem inspect_concur (hE : ∀ r, E r r) {question : Tables → Except Refusal α}
    (hc : c.Alike c') (hq : question c'.tables = question c.tables) :
    Operation.Concur E Eq (inspect s needs question c) (inspect s needs question c') := by
  obtain ⟨hp, hl⟩ : _ ∧ (c.prepare s needs).2.Alike (c'.prepare s needs).2 :=
    prepare_alike hc rfl rfl
  have hkeep := (c.prepare_keeps s needs).1
  have hkeep' := (c'.prepare_keeps s needs).1
  unfold inspect
  generalize c.prepare s needs = p at hp hl hkeep ⊢
  generalize c'.prepare s needs = p' at hp hl hkeep' ⊢
  obtain ⟨result, c1⟩ := p
  obtain ⟨result', c1'⟩ := p'
  obtain rfl : result' = result := hp
  dsimp only at hkeep hkeep'
  cases result' with
  | error e => exact ⟨.error (hE _), hl⟩
  | ok v =>
    dsimp only
    rw [hl.tables.schema s]
    cases s.beginReading with
    | error e => exact ⟨.error (hE _), hl⟩
    | ok u =>
      cases needs (c1.tables.schema s) with
      | error e => exact ⟨.error (hE _), hl.look c1.changed c1'.changed⟩
      | ok u =>
        refine ⟨?_, hl.look c1.changed c1'.changed⟩
        dsimp only
        rw [hkeep, hkeep', hq]
        exact .of_eq hE (fun _ => rfl) _

end Concur

end Pinboard.Store
