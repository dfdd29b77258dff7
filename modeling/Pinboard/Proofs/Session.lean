import Pinboard.Proofs.Effect
import Pinboard.Workspace.Opening

/-!
# Sessions

A session is a database with any number of stores open on it. Stores join, ask and look in any
order, each step within circumstances of its own: faults may have been set and lifted in between,
and somebody else may hold a lock. `run_keeps` turns what every effect keeps into what every session
keeps.
-/

namespace Pinboard.Store

/-- What an open store keeps beside the database. -/
structure Client where
  /-- What its connection saw when it last looked. -/
  known : Schema
  /-- The rows that its last change touched. -/
  changed : Nat
  /-- How it records uses. -/
  own : Dialect.Strategy
  deriving DecidableEq

/-- What a store can do. -/
inductive Act where
  /-- It is opened, in place of the store that is open under its number. -/
  | join (d : Dialect)
  /-- It is asked for something. -/
  | ask (r : Request)
  /-- It looks at the database, as it does when faults are set through it. -/
  | look
  deriving DecidableEq

/-- A step of a session. -/
structure Step where
  /-- The number of the store. -/
  client : Nat
  /-- What surrounds the step. -/
  setting : Setting
  /-- What the store does. -/
  act : Act
  deriving DecidableEq

/-- What comes of a step. -/
inductive Answer where
  /-- The store was opened, or not. -/
  | joined (result : Except OpenError Unit)
  /-- The store has answered. -/
  | asked (result : Except Refusal Reply)
  /-- The store has looked. -/
  | looked
  /-- No store is open. -/
  | absent

/-- A database with the stores that are open on it. -/
structure Session where
  /-- The tables. -/
  tables : Tables
  /-- The stores by number. -/
  clients : Nat → Option Client

namespace Session

/-- A session on some tables that no store is open on yet. -/
def start (t : Tables) : Session := ⟨t, fun _ => none⟩

/-- The session once a store, or none, is open under a number. -/
def seat (w : Session) (i : Nat) (k : Option Client) (t : Tables) : Session :=
  ⟨t, fun j => if j = i then k else w.clients j⟩

/-- Opens a store: the missing tables are made, and the statement of its dialect is tried. -/
def join (w : Session) (i : Nat) (s : Setting) (d : Dialect) : Except OpenError Unit × Session :=
  match addTables s ⟨w.tables, {}, 0⟩ with
  | (.error r, _) => (.error (.schema r), w.seat i none w.tables)
  | (.ok (), c) =>
    match requireRecent d.strategy c.known with
    | .error e => (.error (.dialect d e), w.seat i none c.tables)
    | .ok () => (.ok (), w.seat i (some ⟨c.known, c.changed, d.strategy⟩) c.tables)

/-- Asks an open store for something. -/
def ask (w : Session) (i : Nat) (k : Client) (s : Setting) (r : Request) :
    Except Refusal Reply × Session :=
  let (result, c) := r.run s k.own ⟨w.tables, k.known, k.changed⟩
  (result, w.seat i (some ⟨c.known, c.changed, k.own⟩) c.tables)

/-- One step. -/
def step (w : Session) (st : Step) : Answer × Session :=
  match st.act with
  | .join d =>
    let (result, w) := w.join st.client st.setting d
    (.joined result, w)
  | .ask r =>
    match w.clients st.client with
    | none => (.absent, w)
    | some k =>
      let (result, w) := w.ask st.client k st.setting r
      (.asked result, w)
  | .look =>
    match w.clients st.client with
    | none => (.absent, w)
    | some k =>
      let known := w.tables.schema st.setting
      (.looked, w.seat st.client (some { k with known := known }) w.tables)

/-- Step after step. -/
def run : Session → List Step → List Answer × Session
  | w, [] => ([], w)
  | w, st :: steps =>
    let (a, w) := w.step st
    let (as, w) := run w steps
    (a :: as, w)

end Session

/-! ## What every step keeps -/

theorem makeTables_eq_ok {s : Setting} {t t' : Tables} {u : Unit}
    (h : makeTables s t = .ok (u, t')) : t' = t.addMissing := by
  unfold makeTables at h
  rw [Statement.get_bind_apply] at h
  obtain ⟨-, -, hput⟩ := Statement.lift_bind_eq_ok.mp h
  exact Statement.put_eq_ok.mp hput

/-- Opening a database makes the tables that are missing, or leaves it as it is. -/
theorem addTables_tables (s : Setting) (c : Connection) :
    (addTables s c).2.tables = c.tables ∨ (addTables s c).2.tables = c.tables.addMissing := by
  unfold addTables
  cases s.beginReading with
  | error e => exact Or.inl rfl
  | ok u =>
    dsimp only
    by_cases hmissing : c.tables.incomplete = true
    · rw [if_pos hmissing]
      cases h : (autocommit s false (fun _ => .ok ())
          (Steps.define (makeTables s)) c).1 with
      | error r => exact Or.inl (autocommit_atomic _ _ _ _ c r h)
      | ok u =>
        obtain ⟨-, -, -, -, hmake, -⟩ := autocommit_yields.mp ⟨h, rfl⟩
        exact Or.inr (makeTables_eq_ok (Steps.define_eq_ok.mp hmake))
    · rw [if_neg hmissing]
      exact Or.inl rfl

theorem addTables_learns (s : Setting) : (addTables s).Learns s := by
  intro c
  unfold addTables
  cases s.beginReading with
  | error e => exact Or.inl rfl
  | ok u =>
    dsimp only
    by_cases hmissing : c.tables.incomplete = true
    · rw [if_pos hmissing]
      exact autocommit_learns s _ _ _ c
    · rw [if_neg hmissing]
      exact Or.inr rfl

/-- A store of a dialect is opened only if the database knows its way of recording. -/
theorem known_of_requireRecent {x : Dialect.Strategy} {k : Schema}
    (h : requireRecent x k = .ok ()) : x ≠ .duplicateKey := by
  rintro rfl
  cases h

/-- A way of recording that is named comes before the store's own. -/
theorem getD_eq_duplicateKey {x : Option Dialect.Strategy} {own : Dialect.Strategy}
    (hown : own ≠ .duplicateKey) : x.getD own = .duplicateKey ↔ x = some .duplicateKey := by
  cases x with
  | none => exact ⟨fun h => absurd h hown, fun h => nomatch h⟩
  | some y => exact ⟨congrArg some, Option.some.inj⟩

namespace Session

theorem ask_tables (w : Session) (i : Nat) (k : Client) (s : Setting) (r : Request) :
    (w.ask i k s r).2.tables = (r.run s k.own ⟨w.tables, k.known, k.changed⟩).2.tables := rfl

theorem join_tables (w : Session) (i : Nat) (s : Setting) (d : Dialect) :
    (w.join i s d).2.tables = w.tables ∨ (w.join i s d).2.tables = w.tables.addMissing := by
  have hadd := addTables_tables s ⟨w.tables, {}, 0⟩
  unfold join
  generalize addTables s ⟨w.tables, {}, 0⟩ = result at hadd ⊢
  rcases result with ⟨r | u, c⟩
  · exact Or.inl rfl
  · dsimp only at hadd ⊢
    cases requireRecent d.strategy c.known <;> exact hadd

/-- What a step has done to the tables: nothing, what a granted request does, or the missing tables
were made. -/
theorem step_cases (w : Session) (st : Step) :
    (w.step st).2.tables = w.tables ∨
      (∃ d, st.act = .join d ∧ (w.step st).2.tables = w.tables.addMissing) ∨
      ∃ r a, st.act = .ask r ∧ (w.step st).1 = .asked (.ok a) ∧
        Effect w.tables r a (w.step st).2.tables := by
  unfold step
  cases st.act with
  | join d =>
    rcases w.join_tables st.client st.setting d with h | h
    · exact Or.inl h
    · exact Or.inr (Or.inl ⟨d, rfl, h⟩)
  | ask r =>
    dsimp only
    cases w.clients st.client with
    | none => exact Or.inl rfl
    | some k =>
      rcases run_cases st.setting k.own r ⟨w.tables, k.known, k.changed⟩ with ⟨a, h, heff⟩ | ⟨-, h⟩
      · exact Or.inr (Or.inr ⟨r, a, rfl, by rw [← h]; rfl, heff⟩)
      · exact Or.inl h
  | look =>
    dsimp only
    cases w.clients st.client with
    | none => exact Or.inl rfl
    | some k => exact Or.inl rfl

/-- What a store was granted, it was granted through a connection to the tables. -/
theorem step_granted {w : Session} {st : Step} {r : Request} {a : Reply} (hact : st.act = .ask r)
    (ha : (w.step st).1 = .asked (.ok a)) :
    ∃ own c, c.tables = w.tables ∧ (r.run st.setting own).Yields c a (w.step st).2.tables := by
  unfold step at ha ⊢
  rw [hact] at ha ⊢
  dsimp only at ha ⊢
  cases hi : w.clients st.client with
  | none =>
    rw [hi] at ha
    cases ha
  | some k =>
    rw [hi] at ha
    exact ⟨k.own, ⟨w.tables, k.known, k.changed⟩, rfl, Answer.asked.inj ha, rfl⟩

theorem run_cons (w : Session) (st : Step) (steps : List Step) :
    (w.run (st :: steps)).2 = ((w.step st).2.run steps).2 := rfl

/-- What every effect and the making of tables keep, every session keeps. -/
theorem run_keeps {P : Tables → Prop} (hadd : ∀ t, P t → P t.addMissing)
    (heff : ∀ t r a t', Effect t r a t' → P t → P t') {w : Session} (hw : P w.tables)
    (steps : List Step) : P (w.run steps).2.tables := by
  induction steps generalizing w with
  | nil => exact hw
  | cons st steps ih =>
    rw [run_cons]
    refine ih ?_
    rcases w.step_cases st with h | ⟨d, -, h⟩ | ⟨r, a, -, -, h⟩
    · rw [h]
      exact hw
    · rw [h]
      exact hadd _ hw
    · exact heff _ _ _ _ h hw

end Session

end Pinboard.Store
