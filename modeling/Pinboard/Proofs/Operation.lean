import Pinboard.Proofs.Statement
import Pinboard.Store.Request

/-!
# What operations leave behind

An operation either yields an answer, with the tables that its steps have made, or is refused and
leaves the tables as they were. Each way of running steps is described by these two facts: `Yields`
says exactly when an answer comes about, and `Atomic` that a refusal changes nothing. What a
connection remembers afterwards is left out of both.
-/

namespace Pinboard.Store

/-! ## Steps -/

namespace Steps

theorem bind_apply {α β : Type} (x : Steps α) (f : α → Steps β) (t : Tables) (changed : Nat) :
    (x >>= f) t changed = match x t changed with
      | (.ok (a, u), changed) => f a u changed
      | (.error r, changed) => (.error r, changed) := by
  simp only [bind, StateT.bind, ExceptT.bind, ExceptT.mk]
  rcases x t changed with ⟨r | ⟨a, u⟩, m⟩ <;> rfl

theorem bind_fst {α β : Type} (x : Steps α) (f : α → Steps β) (t : Tables) (n : Nat) :
    ((x >>= f) t n).1 = (x t n).1 >>= fun p => (f p.1 p.2 (x t n).2).1 := by
  rw [bind_apply]
  rcases x t n with ⟨r | ⟨a, u⟩, m⟩ <;> rfl

theorem bind_eq_ok {α β : Type} {x : Steps α} {f : α → Steps β} {t t' : Tables} {changed : Nat}
    {b : β} : ((x >>= f) t changed).1 = .ok (b, t') ↔
      ∃ a u, (x t changed).1 = .ok (a, u) ∧ (f a u (x t changed).2).1 = .ok (b, t') := by
  rw [bind_apply]
  rcases x t changed with ⟨r | ⟨a, u⟩, m⟩
  · simp
  · constructor
    · intro h
      exact ⟨a, u, rfl, h⟩
    · rintro ⟨a', u', h, h'⟩
      cases h
      exact h'

theorem pure_eq_ok {α : Type} {t t' : Tables} {changed : Nat} {a b : α} :
    ((pure a : Steps α) t changed).1 = .ok (b, t') ↔ b = a ∧ t' = t := by
  show Except.ok (a, t) = _ ↔ _
  simp [eq_comm]

theorem refuse_ne_ok {α : Type} {r : Refusal} {t : Tables} {changed : Nat} {p : α × Tables} :
    (refuse r t changed).1 ≠ .ok p := by
  simp [refuse]

theorem ask_eq_ok {α : Type} {f : Tables → Except StorageError α} {t t' : Tables} {changed : Nat}
    {a : α} : (ask f t changed).1 = .ok (a, t') ↔ f t = .ok a ∧ t' = t := by
  unfold ask
  cases f t with
  | error e => simp
  | ok b => simp [eq_comm]

theorem tryWith_eq_ok {α : Type} {blame : StorageError → Refusal} {count : α → Nat}
    {s : Statement α} {t t' : Tables} {changed : Nat} {a : α} :
    (tryWith blame count s t changed).1 = .ok (a, t') ↔ s t = .ok (a, t') := by
  unfold tryWith
  rcases s t with e | ⟨b, u⟩ <;> simp

theorem change_eq_ok {α : Type} {s : Statement α} {t t' : Tables} {changed : Nat} {a : α} :
    (change s t changed).1 = .ok (a, t') ↔ s t = .ok (a, t') :=
  tryWith_eq_ok

theorem changeMany_eq_ok {s : Statement Nat} {t t' : Tables} {changed count : Nat} :
    (changeMany s t changed).1 = .ok (count, t') ↔ s t = .ok (count, t') :=
  tryWith_eq_ok

theorem define_eq_ok {α : Type} {s : Statement α} {t t' : Tables} {changed : Nat} {a : α} :
    (define s t changed).1 = .ok (a, t') ↔ s t = .ok (a, t') := by
  unfold define
  rcases s t with e | ⟨b, u⟩ <;> simp

end Steps

/-! ## Answers and refusals -/

namespace Operation

variable {α β : Type}

/-- An operation on a connection yields an answer and leaves certain tables. -/
def Yields (op : Operation α) (c : Connection) (a : α) (t : Tables) : Prop :=
  (op c).1 = .ok a ∧ (op c).2.tables = t

/-- An operation that is refused leaves the tables as they were. -/
def Atomic (op : Operation α) : Prop :=
  ∀ c r, (op c).1 = .error r → (op c).2.tables = c.tables

theorem Yields.intro {op : Operation α} {c c' : Connection} {a : α} (h : op c = (.ok a, c')) :
    op.Yields c a c'.tables := by
  simp [Yields, h]

theorem refused_atomic (r : Refusal) : Atomic (refused r : Operation α) := fun _ _ _ => rfl

theorem refused_not_yields {r : Refusal} {c : Connection} {a : α} {t : Tables} :
    ¬ (refused r : Operation α).Yields c a t := by
  simp [Yields, refused]

end Operation

/-! ## Preparing and running -/

namespace Connection

theorem look_tables (c : Connection) (s : Setting) : (c.look s).tables = c.tables := rfl

theorem look_changed (c : Connection) (s : Setting) : (c.look s).changed = c.changed := rfl

/-- Preparing a statement touches neither the tables nor the count of rows that were changed. -/
theorem prepare_keeps (c : Connection) (s : Setting) (needs : Schema → Except StorageError Unit) :
    (c.prepare s needs).2.tables = c.tables ∧ (c.prepare s needs).2.changed = c.changed := by
  unfold prepare
  cases needs c.known with
  | ok u => exact ⟨rfl, rfl⟩
  | error e =>
    dsimp only
    split
    · exact ⟨look_tables c s, look_changed c s⟩
    · exact ⟨rfl, rfl⟩

end Connection

variable {α β : Type}

/-- What steps whose beginning is permitted yield: what they make if that is to last and may take
effect, and the tables as they were if it is not to last. -/
theorem runSteps_yields {s : Setting} {lasts : α → Bool} {steps : Steps α} {c : Connection} {a : α}
    {t : Tables} : (runSteps s lasts steps).Yields c a t ↔
      ∃ u, (steps c.tables c.changed).1 = .ok (a, u) ∧
        ((lasts a = true ∧ s.commit = .ok () ∧ t = u) ∨
          (lasts a = false ∧ t = c.tables)) := by
  unfold Operation.Yields runSteps
  rcases steps c.tables c.changed with ⟨r | ⟨b, u⟩, changed⟩
  · simp
  · have hex : (∃ u', (Except.ok (b, u) : Except Refusal _) = .ok (a, u') ∧
        ((lasts a = true ∧ s.commit = .ok () ∧ t = u') ∨
          (lasts a = false ∧ t = c.tables))) ↔
        b = a ∧ ((lasts b = true ∧ s.commit = .ok () ∧ t = u) ∨
          (lasts b = false ∧ t = c.tables)) := by
      constructor
      · rintro ⟨u', h, h'⟩
        cases h
        exact ⟨rfl, h'⟩
      · rintro ⟨rfl, h'⟩
        exact ⟨u, rfl, h'⟩
    dsimp only
    rw [hex]
    by_cases hl : lasts b = true
    · cases hc : s.commit with
      | error e => simp [hl]
      | ok x => simp [hl, eq_comm]
    · simp [hl, Connection.look, eq_comm]

theorem runSteps_lasting_yields {s : Setting} {steps : Steps α} {c : Connection} {a : α}
    {t : Tables} : (runSteps s (fun _ => true) steps).Yields c a t ↔
      (steps c.tables c.changed).1 = .ok (a, t) ∧ s.commit = .ok () := by
  rw [runSteps_yields]
  constructor
  · rintro ⟨u, h, ⟨-, hc, rfl⟩ | ⟨h', -⟩⟩
    · exact ⟨h, hc⟩
    · cases h'
  · rintro ⟨h, hc⟩
    exact ⟨t, h, Or.inl ⟨rfl, hc, rfl⟩⟩

/-- Steps that are refused, or may not take effect, leave the tables as they were. -/
theorem runSteps_atomic (s : Setting) (lasts : α → Bool) (steps : Steps α) :
    (runSteps s lasts steps).Atomic := by
  intro c r h
  unfold runSteps at h ⊢
  rcases hs : steps c.tables c.changed with ⟨e | ⟨b, u⟩, changed⟩
  · rfl
  · simp only [hs] at h ⊢
    by_cases hl : lasts b = true
    · rw [if_pos hl] at h ⊢
      cases hc : s.commit with
      | error e => rfl
      | ok x =>
        rw [hc] at h
        simp at h
    · rw [if_neg hl]
      rfl

theorem transactionIf_yields {s : Setting} {lasts : α → Bool} {steps : Steps α} {c : Connection}
    {a : α} {t : Tables} : (transactionIf s lasts steps).Yields c a t ↔
      s.beginTransaction = .ok () ∧ ∃ u, (steps c.tables c.changed).1 = .ok (a, u) ∧
        ((lasts a = true ∧ s.commit = .ok () ∧ t = u) ∨
          (lasts a = false ∧ t = c.tables)) := by
  rw [← runSteps_yields]
  unfold transactionIf Operation.Yields
  cases s.beginTransaction <;> simp

theorem transactionIf_atomic (s : Setting) (lasts : α → Bool) (steps : Steps α) :
    (transactionIf s lasts steps).Atomic := by
  intro c r h
  unfold transactionIf at h ⊢
  cases hb : s.beginTransaction with
  | error e => rfl
  | ok u =>
    simp only [hb] at h ⊢
    exact runSteps_atomic s lasts steps c r h

/-- What a statement needs when it is prepared: it is found in what the connection remembers, or
else in the tables as they are. -/
def Connection.Prepares (c : Connection) (s : Setting)
    (needs : Schema → Except StorageError Unit) : Prop :=
  (c.prepare s needs).1 = .ok ()

theorem transactionFrom_yields {s : Setting} {needs : Schema → Except StorageError Unit}
    {steps : Steps α} {c : Connection} {a : α} {t : Tables} :
    (transactionFrom s needs steps).Yields c a t ↔
      s.beginTransaction = .ok () ∧ c.Prepares s needs ∧ s.permitWriting = .ok () ∧
        (steps c.tables c.changed).1 = .ok (a, t) ∧ s.commit = .ok () := by
  have hrun : (runSteps s (fun _ => true) steps).Yields (c.prepare s needs).2 a t ↔ _ :=
    runSteps_lasting_yields
  rw [(c.prepare_keeps s needs).1, (c.prepare_keeps s needs).2] at hrun
  rw [← hrun]
  unfold transactionFrom Operation.Yields Connection.Prepares
  dsimp only
  cases s.beginTransaction with
  | error e => simp
  | ok u =>
    dsimp only
    rcases c.prepare s needs with ⟨e | u, c'⟩
    · simp
    · cases s.permitWriting <;> simp

theorem transactionFrom_atomic (s : Setting) (needs : Schema → Except StorageError Unit)
    (steps : Steps α) : (transactionFrom s needs steps).Atomic := by
  intro c r h
  have hkeep := (c.prepare_keeps s needs).1
  unfold transactionFrom at h ⊢
  cases hb : s.beginTransaction with
  | error e => rfl
  | ok u =>
    simp only [hb] at h ⊢
    rcases hp : c.prepare s needs with ⟨e | u, c'⟩
    · rw [hp] at hkeep
      exact hkeep
    · rw [hp] at hkeep
      simp only [hp] at h ⊢
      cases hw : s.permitWriting with
      | error e => exact hkeep
      | ok v =>
        simp only [hw] at h ⊢
        rw [runSteps_atomic s _ steps c' r h]
        exact hkeep

theorem autocommit_yields {s : Setting} {rowwise : Bool}
    {needs : Schema → Except StorageError Unit} {steps : Steps α} {c : Connection} {a : α}
    {t : Tables} : (autocommit s rowwise needs steps).Yields c a t ↔
      c.Prepares s needs ∧ s.permitWriting = .ok () ∧ s.beginWriting = .ok () ∧
        needs (c.tables.schema s) = .ok () ∧
        (steps c.tables c.changed).1 = .ok (a, t) ∧ s.commit = .ok () := by
  have hkeep := (c.prepare_keeps s needs).1
  have hrun : (runSteps s (fun _ => true) steps).Yields (c.prepare s needs).2 a t ↔ _ :=
    runSteps_lasting_yields
  rw [hkeep, (c.prepare_keeps s needs).2] at hrun
  rw [← hrun]
  unfold autocommit Operation.Yields Connection.Prepares
  dsimp only
  rcases hp : c.prepare s needs with ⟨e | u, c'⟩
  · simp
  · rw [hp] at hkeep
    dsimp only at hkeep ⊢
    rw [hkeep]
    cases s.permitWriting with
    | error e => simp
    | ok u =>
      cases s.beginWriting with
      | error e => simp
      | ok u =>
        cases needs (c.tables.schema s) with
        | error e => simp
        | ok u =>
          dsimp only
          rcases runSteps s (fun _ => true) steps c' with ⟨e | b, c''⟩ <;> simp

theorem autocommit_atomic (s : Setting) (rowwise : Bool)
    (needs : Schema → Except StorageError Unit) (steps : Steps α) :
    (autocommit s rowwise needs steps).Atomic := by
  intro c r h
  have hkeep := (c.prepare_keeps s needs).1
  unfold autocommit at h ⊢
  rcases hp : c.prepare s needs with ⟨e | u, c'⟩
  · rw [hp] at hkeep
    exact hkeep
  · rw [hp] at hkeep
    simp only [hp] at h ⊢
    have hrun := runSteps_atomic s (fun _ => true) steps c'
    cases rowwise <;> cases hw : s.permitWriting <;> cases hb : s.beginWriting <;>
      cases hn : needs (c'.tables.schema s) <;> try exact hkeep
    all_goals
      simp only [hw, hb, hn] at h ⊢
      rcases hr : runSteps s (fun _ => true) steps c' with ⟨e | b, c''⟩
      · have := hrun e (by rw [hr])
        rw [hr] at this
        exact this.trans hkeep
      · simp [hr] at h

theorem inspect_yields {s : Setting} {needs : Schema → Except StorageError Unit}
    {question : Tables → Except Refusal α} {c : Connection} {a : α} {t : Tables} :
    (inspect s needs question).Yields c a t ↔
      c.Prepares s needs ∧ s.beginReading = .ok () ∧ needs (c.tables.schema s) = .ok () ∧
        question c.tables = .ok a ∧ t = c.tables := by
  have hkeep := (c.prepare_keeps s needs).1
  unfold inspect Operation.Yields Connection.Prepares
  dsimp only
  rcases hp : c.prepare s needs with ⟨e | u, c'⟩
  · simp
  · rw [hp] at hkeep
    dsimp only at hkeep ⊢
    rw [hkeep]
    cases s.beginReading with
    | error e => simp
    | ok u =>
      cases needs (c.tables.schema s) with
      | error e => simp
      | ok u => simp [Connection.look, hkeep, eq_comm]

/-- A question that is prepared and may be read is answered by the tables alone. -/
theorem inspect_answer {s : Setting} {needs : Schema → Except StorageError Unit}
    {question : Tables → Except Refusal α} {c : Connection} (hp : c.Prepares s needs)
    (hb : s.beginReading = .ok ()) (hneeds : needs (c.tables.schema s) = .ok ()) :
    (inspect s needs question c).1 = question c.tables := by
  have hkeep := (c.prepare_keeps s needs).1
  unfold Connection.Prepares at hp
  unfold inspect
  generalize c.prepare s needs = prepared at hp hkeep ⊢
  obtain ⟨result, c'⟩ := prepared
  dsimp only at hp hkeep
  subst hp
  dsimp only
  rw [hb, hkeep, hneeds]

/-- A question changes nothing, whatever comes of it. -/
theorem inspect_keeps (s : Setting) (needs : Schema → Except StorageError Unit)
    (question : Tables → Except Refusal α) (c : Connection) :
    (inspect s needs question c).2.tables = c.tables := by
  have hkeep := (c.prepare_keeps s needs).1
  unfold inspect
  rcases hp : c.prepare s needs with ⟨e | u, c'⟩
  · rw [hp] at hkeep
    exact hkeep
  · rw [hp] at hkeep
    dsimp only
    cases s.beginReading with
    | error e => exact hkeep
    | ok u => cases needs (c'.tables.schema s) <;> exact hkeep

theorem inspect_atomic (s : Setting) (needs : Schema → Except StorageError Unit)
    (question : Tables → Except Refusal α) : (inspect s needs question).Atomic :=
  fun c _ _ => inspect_keeps s needs question c

namespace Operation

theorem map_yields {f : α → β} {op : Operation α} {c : Connection} {b : β} {t : Tables} :
    (op.map f).Yields c b t ↔ ∃ a, op.Yields c a t ∧ b = f a := by
  unfold Yields map
  rcases op c with ⟨r | a, c'⟩
  · simp
  · constructor
    · rintro ⟨h, rfl⟩
      cases h
      exact ⟨a, ⟨rfl, rfl⟩, rfl⟩
    · rintro ⟨a', ⟨h, rfl⟩, rfl⟩
      cases h
      exact ⟨rfl, rfl⟩

theorem map_tables (f : α → β) (op : Operation α) (c : Connection) :
    ((op.map f) c).2.tables = (op c).2.tables := by
  unfold map
  rcases op c with ⟨r | a, c'⟩ <;> rfl

theorem map_atomic {f : α → β} {op : Operation α} (h : op.Atomic) : (op.map f).Atomic := by
  intro c r hr
  have hop := h c r
  unfold map at hr ⊢
  rcases hc : op c with ⟨r' | a, c'⟩
  · simp only [hc] at hr hop ⊢
    exact hop (by simpa using hr)
  · simp [hc] at hr

theorem judge_yields {op : Operation α} {verdict : α → Except Refusal β} {c : Connection} {b : β}
    {t : Tables} : (op.judge verdict).Yields c b t ↔ ∃ a, op.Yields c a t ∧ verdict a = .ok b := by
  unfold Yields judge
  rcases op c with ⟨r | a, c'⟩
  · simp
  · constructor
    · rintro ⟨h, rfl⟩
      exact ⟨a, ⟨rfl, rfl⟩, h⟩
    · rintro ⟨a', ⟨h, rfl⟩, h'⟩
      cases h
      exact ⟨h', rfl⟩

/-- A verdict that comes too late to undo anything is harmless where it only refuses what has
changed nothing. -/
theorem judge_atomic {op : Operation α} {verdict : α → Except Refusal β} (h : op.Atomic)
    (hv : ∀ c a t r, op.Yields c a t → verdict a = .error r → t = c.tables) :
    (op.judge verdict).Atomic := by
  intro c r hr
  have hop := h c
  have hy := fun a t => hv c a t r
  unfold judge at hr ⊢
  unfold Yields at hy
  rcases hc : op c with ⟨r' | a, c'⟩
  · simp only [hc] at hop ⊢
    exact hop r' rfl
  · simp only [hc] at hr hy ⊢
    exact hy a _ ⟨rfl, rfl⟩ hr

end Operation

/-! ## What a connection remembers -/

/-- The faults that a connection remembers after an operation are those that it remembered before,
or those that there are. -/
def Operation.Learns (s : Setting) (op : Operation α) : Prop :=
  ∀ c, (op c).2.known.faults = c.known.faults ∨ (op c).2.known.faults = s.faults

theorem Connection.prepare_learns (c : Connection) (s : Setting)
    (needs : Schema → Except StorageError Unit) :
    (c.prepare s needs).2.known.faults = c.known.faults ∨
      (c.prepare s needs).2.known.faults = s.faults := by
  unfold prepare
  cases needs c.known with
  | ok u => exact Or.inl rfl
  | error e =>
    dsimp only
    split
    · exact Or.inr rfl
    · exact Or.inl rfl

/-- Steps that have run leave the connection with the faults that there are. -/
theorem runSteps_known (s : Setting) (lasts : α → Bool) (steps : Steps α) (c : Connection) :
    (runSteps s lasts steps c).2.known.faults = s.faults := by
  unfold runSteps
  rcases steps c.tables c.changed with ⟨r | ⟨a, t⟩, changed⟩
  · rfl
  · dsimp only
    split
    · cases s.commit <;> rfl
    · rfl

theorem transactionIf_learns (s : Setting) (lasts : α → Bool) (steps : Steps α) :
    (transactionIf s lasts steps).Learns s := by
  intro c
  unfold transactionIf
  cases s.beginTransaction with
  | error e => exact Or.inl rfl
  | ok u => exact Or.inr (runSteps_known s lasts steps c)

theorem transactionFrom_learns (s : Setting) (needs : Schema → Except StorageError Unit)
    (steps : Steps α) : (transactionFrom s needs steps).Learns s := by
  intro c
  have hp := c.prepare_learns s needs
  unfold transactionFrom
  cases s.beginTransaction with
  | error e => exact Or.inl rfl
  | ok u =>
    dsimp only
    generalize c.prepare s needs = prepared at hp ⊢
    rcases prepared with ⟨e | u, c'⟩
    · exact hp
    · cases s.permitWriting with
      | error e => exact hp
      | ok v => exact Or.inr (runSteps_known s _ steps c')

theorem autocommit_learns (s : Setting) (rowwise : Bool)
    (needs : Schema → Except StorageError Unit) (steps : Steps α) :
    (autocommit s rowwise needs steps).Learns s := by
  intro c
  have hp := c.prepare_learns s needs
  unfold autocommit
  generalize c.prepare s needs = prepared at hp ⊢
  rcases prepared with ⟨e | u, c'⟩
  · exact hp
  · have hrun := runSteps_known s (fun _ => true) steps c'
    dsimp only
    cases s.permitWriting with
    | error e => cases rowwise <;> exact hp
    | ok u =>
      cases s.beginWriting with
      | error e => cases rowwise <;> exact hp
      | ok u =>
        cases needs (c'.tables.schema s) with
        | error e => exact Or.inr rfl
        | ok u =>
          dsimp only
          generalize runSteps s (fun _ => true) steps c' = ran at hrun ⊢
          rcases ran with ⟨r | a, c''⟩
          · cases rowwise <;> exact Or.inr hrun
          · exact Or.inr hrun

theorem inspect_learns (s : Setting) (needs : Schema → Except StorageError Unit)
    (question : Tables → Except Refusal α) : (inspect s needs question).Learns s := by
  intro c
  have hp := c.prepare_learns s needs
  unfold inspect
  generalize c.prepare s needs = prepared at hp ⊢
  rcases prepared with ⟨e | u, c'⟩
  · exact hp
  · dsimp only
    cases s.beginReading with
    | error e => exact hp
    | ok u => cases needs (c'.tables.schema s) <;> exact Or.inr rfl

namespace Operation

theorem map_learns {s : Setting} {f : α → β} {op : Operation α} (h : op.Learns s) :
    (op.map f).Learns s := by
  intro c
  have hc := h c
  unfold map
  generalize op c = result at hc ⊢
  rcases result with ⟨r | a, c'⟩ <;> exact hc

theorem judge_learns {s : Setting} {op : Operation α} {verdict : α → Except Refusal β}
    (h : op.Learns s) : (op.judge verdict).Learns s := by
  intro c
  have hc := h c
  unfold judge
  generalize op c = result at hc ⊢
  rcases result with ⟨r | a, c'⟩ <;> exact hc

theorem refused_learns (s : Setting) (r : Refusal) : (refused r : Operation α).Learns s :=
  fun _ => Or.inl rfl

end Operation

end Pinboard.Store
