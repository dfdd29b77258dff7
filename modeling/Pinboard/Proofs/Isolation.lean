import Pinboard.Proofs.Steadiness

/-!
# Owners do not notice each other

Any number of owners share a database through any number of stores, and nothing disturbs them. What
one owner is told, and what it has in the end, is what it would have been told and would have if it
had been alone: only the dashboards made meanwhile have other numbers, in the same order. The proof
runs the shared session beside one of that owner alone. A step of another owner leaves what the one
has as it was; a step of its own is taken in both.
-/

namespace Pinboard.Store

/-! ## Steps of owners -/

/-- The user that a step is about. -/
def Step.owner? (st : Step) : Option UserId :=
  match st.act with
  | .ask r => r.owner?
  | _ => none

/-- The dashboard that a step names. -/
def Step.named? (st : Step) : Option UInt32 :=
  match st.act with
  | .ask r => r.named?
  | _ => none

/-- The dashboard that a step has made. -/
def Step.made? (st : Step) (a : Answer) : Option UInt32 :=
  match st.act, a with
  | .ask (.createDashboard _), .asked (.ok (.dashboard (some d))) => some d.id
  | _, _ => none

/-- The step with the dashboard renamed that it names. -/
def Step.renamed (ρ : Renaming) (st : Step) : Step :=
  match st.act with
  | .ask r => { st with act := .ask (r.renamed ρ) }
  | _ => st

/-- What came of a step, with its dashboards renamed. -/
def Answer.renamed (ρ : Renaming) : Answer → Answer
  | .asked result => .asked (ρ.result (Reply.renamed ρ) result)
  | a => a

/-- A step and what came of it, with its dashboards renamed. -/
def Renaming.exchange (ρ : Renaming) (p : Step × Answer) : Step × Answer :=
  (p.1.renamed ρ, p.2.renamed ρ)

theorem Step.made?_eq_some {st : Step} {a : Answer} {id : UInt32} (h : st.made? a = some id) :
    ∃ draft d, st.act = .ask (.createDashboard draft) ∧
      a = .asked (.ok (.dashboard (some d))) ∧ d.id = id := by
  unfold Step.made? at h
  split at h
  · rename_i draft d hact
    exact ⟨draft, d, hact, rfl, Option.some.inj h⟩
  · cases h

/-- A renamed step has made the renamed dashboard. -/
theorem Step.made?_renamed (ρ : Renaming) (st : Step) (a : Answer) :
    (st.renamed ρ).made? (a.renamed ρ) = (st.made? a).map ρ.short := by
  obtain ⟨i, s, act⟩ := st
  cases act with
  | join d => rfl
  | look => rfl
  | ask r =>
    cases r with
    | createDashboard draft =>
      rcases a with _ | (_ | reply) | _ | _
      · rfl
      · rfl
      · cases reply with
        | dashboard d => cases d <;> rfl
        | _ => rfl
      · rfl
      · rfl
    | _ => rfl

namespace Session

/-- The steps of a session, each with what came of it. -/
def talk (w : Session) (steps : List Step) : List (Step × Answer) := steps.zip (w.run steps).1

/-- Steps that nothing disturbs, each of them about some user. One of the users names only the
dashboards of a list, and those that it has made. -/
inductive Scoped (o : UserId) : List UInt32 → Session → List Step → Prop where
  /-- Nothing is asked for any more. -/
  | done {had : List UInt32} {w : Session} : Scoped o had w []
  /-- Something about another user is asked for. -/
  | other {had : List UInt32} {w : Session} {st : Step} {steps : List Step} {owner : UserId}
      (hclear : st.setting = .clear) (howner : st.owner? = some owner) (hne : owner ≠ o)
      (hrest : Scoped o had (w.step st).2 steps) : Scoped o had w (st :: steps)
  /-- Something about the one user is asked for. -/
  | own {had : List UInt32} {w : Session} {st : Step} {steps : List Step}
      (hclear : st.setting = .clear) (howner : st.owner? = some o)
      (hnamed : ∀ id ∈ st.named?, id ∈ had)
      (hrest : Scoped o (had ++ (st.made? (w.step st).1).toList) (w.step st).2 steps) :
      Scoped o had w (st :: steps)

theorem talk_cons (w : Session) (st : Step) (steps : List Step) :
    w.talk (st :: steps) = (st, (w.step st).1) :: (w.step st).2.talk steps := rfl

/-! ## Undisturbed sessions -/

/-- The tables are sound and counted, and no store is kept from using them. -/
structure Regular (w : Session) : Prop where
  /-- The tables are sound. -/
  tables : w.tables.Sound
  /-- The counter is right. -/
  counted : w.tables.Counted
  /-- No store remembers a fault on a column that is not there. -/
  clients : ∀ i k, w.clients i = some k → ∀ f ∈ k.known.faults, f.strayColumn? = none

/-- Whatever has happened on a fresh database, its tables are sound and counted. -/
theorem sound_counted (past : List Step) :
    ((start .fresh).run past).2.tables.Sound ∧ ((start .fresh).run past).2.tables.Counted := by
  refine run_keeps (P := fun t => t.Sound ∧ t.Counted) (fun t ht => ?_) ?_
    ⟨Tables.sound_fresh, Tables.counted_fresh⟩ past
  · rw [ht.1.addMissing]
    exact ht
  · rintro t r a t' heff ⟨hs, hc⟩
    exact ⟨heff.sound hs, heff.counted hc⟩

theorem lastDashboard_le_run (w : Session) (steps : List Step) :
    w.tables.lastDashboard ≤ (w.run steps).2.tables.lastDashboard := by
  refine run_keeps (P := fun t => w.tables.lastDashboard ≤ t.lastDashboard)
    (fun t ht => ht) ?_ (Int.le_refl _) steps
  intro t r a t' heff ht
  exact Int.le_trans ht heff.lastDashboard_le

/-- A run makes no more dashboards than it has steps. -/
theorem lastDashboard_run_le {w : Session} (hsound : w.tables.Sound) (hcounted : w.tables.Counted)
    (steps : List Step) :
    (w.run steps).2.tables.lastDashboard ≤ w.tables.lastDashboard + steps.length := by
  induction steps generalizing w with
  | nil =>
    show w.tables.lastDashboard ≤ w.tables.lastDashboard + 0
    omega
  | cons st steps ih =>
    rw [run_cons, List.length_cons]
    rcases w.step_cases st with h | ⟨d, -, h⟩ | ⟨r, a, -, -, heff⟩
    · have hrest := ih (h ▸ hsound) (h ▸ hcounted)
      rw [h] at hrest
      omega
    · rw [hsound.addMissing] at h
      have hrest := ih (h ▸ hsound) (h ▸ hcounted)
      rw [h] at hrest
      omega
    · have hrest := ih (heff.sound hsound) (heff.counted hcounted)
      have hone := heff.lastDashboard_le_succ hcounted
      omega

section Ask

variable {w : Session} {i : Nat} {k : Client}

theorem Regular.steady (hw : w.Regular) (hi : w.clients i = some k) :
    Connection.Steady ⟨w.tables, k.known, k.changed⟩ :=
  ⟨hw.tables.mem_present, hw.clients i k hi⟩

theorem Regular.ask (hw : w.Regular) (hi : w.clients i = some k) (r : Request) :
    (w.ask i k .clear r).2.Regular := by
  have hsound : (w.ask i k .clear r).2.tables.Sound := by
    rcases run_cases .clear k.own r ⟨w.tables, k.known, k.changed⟩ with ⟨a, -, h⟩ | ⟨-, h⟩
    · exact h.sound hw.tables
    · rw [ask_tables, h]
      exact hw.tables
  refine ⟨hsound, run_counted _ _ _ _ hw.counted, fun j k' hj => ?_⟩
  unfold Session.ask seat at hj
  dsimp only at hj
  split at hj
  · cases hj
    exact ((hw.steady hi).keeps (run_learns .clear k.own r) hsound).known
  · exact hw.clients j k' hj

end Ask

end Session

/-! ## Steps of others -/

/-- What another user asks for leaves alone what the owner has. -/
theorem run_share {s : Setting} {own : Dialect.Strategy} {r : Request} {c : Connection}
    {owner o : UserId} (hr : r.owner? = some owner) (hne : owner ≠ o) :
    (r.run s own c).2.tables.share (wide o) = c.tables.share (wide o) := by
  rcases run_cases s own r c with ⟨a, -, heff⟩ | ⟨-, hsame⟩
  · exact heff.footprint.share hr fun he => hne (wide_injective he).symm
  · rw [hsame]

theorem Tables.Sound.share {t : Tables} (h : t.Sound) (o : UserId) :
    t.share (wide o) = ⟨some (t.people.filter (·.id == wide o)), some (t.boardsOf o),
      some (t.definitionsOf o), some (t.usesOf o)⟩ := by
  unfold Tables.share
  rw [h.people_eq, h.boards_eq, h.definitions_eq, h.recents_eq]
  rfl

/-- Only what the owner has, and that the counter does not go back, counts. -/
theorem Mirror.of_share {ρ : Renaming} {o : UserId} {t t' v : Tables} (h : Mirror ρ o t v)
    (ht : t.Sound) (ht' : t'.Sound) (hshare : t'.share (wide o) = t.share (wide o))
    (hlast : t.lastDashboard ≤ t'.lastDashboard) : Mirror ρ o t' v := by
  rw [ht.share, ht'.share] at hshare
  simp only [Share.mk.injEq, Option.some.injEq] at hshare
  obtain ⟨huser, hboards, htags, huses⟩ := hshare
  refine ⟨Int.le_trans h.counter hlast, ?_, ?_, ?_, ?_⟩
  · rw [huser, h.user]
  · rw [hboards, h.boards]
  · rw [htags, h.tags]
  · rw [huses, h.uses]

/-- What a user has, without the rows' own numbers, which nothing but faults can see. -/
def Share.plain (s : Share) : Share :=
  { s with
    tags := s.tags.map (List.map TagRow.plain),
    recents := s.recents.map (List.map RecentRow.plain) }

/-- What a user has, with its dashboards renamed. -/
def Share.renamed (ρ : Renaming) (s : Share) : Share :=
  { s with dashboards := s.dashboards.map (List.map (DashboardRow.renamed ρ)) }

/-- Stores that mirror each other hold the same for the owner, its dashboards renamed. -/
theorem Mirror.share {ρ : Renaming} {o : UserId} {t v : Tables} (h : Mirror ρ o t v)
    (ht : t.Sound) (hv : v.Sound) :
    (t.share (wide o)).plain = (v.share (wide o)).plain.renamed ρ := by
  rw [ht.share, hv.share]
  unfold Share.plain Share.renamed
  simp only [Option.map_some, h.user, h.boards, h.tags, h.uses]

/-! ## The owner's own steps -/

/-- A dashboard that is made has a number that the counter has passed. -/
theorem Effect.made_le {t t' : Tables} {draft d : Dashboard}
    (h : Effect t (.createDashboard draft) (.dashboard (some d)) t') :
    wide d.id ≤ t'.lastDashboard := by
  cases h with
  | question hq => cases hq
  | @createDashboard _ rows users order n _ _ _ _ hn =>
    obtain ⟨-, -, hpos, -⟩ := nextNumber_spec hn
    have hle : wide (cut32 n) ≤ n := by
      unfold wide cut32
      rw [UInt32.toNat_ofNat']
      omega
    exact Int.le_trans hle (Int.le_max_right _ _)

namespace Session

theorem step_made_le {w : Session} {st : Step} {id : UInt32}
    (hid : st.made? (w.step st).1 = some id) : wide id ≤ (w.step st).2.tables.lastDashboard := by
  obtain ⟨draft, d, hact, hanswer, rfl⟩ := Step.made?_eq_some hid
  obtain ⟨own, c, -, hmade⟩ := step_granted hact hanswer
  exact (run_effect hmade).made_le

/-- A shared session and one of an owner alone: the same stores are open, and the tables mirror each
other for the owner. -/
structure Mirrors (ρ : Renaming) (o : UserId) (w v : Session) : Prop where
  /-- The shared session is undisturbed. -/
  regular : w.Regular
  /-- That of the owner alone is undisturbed. -/
  regular' : v.Regular
  /-- There are numbers of 32 bits left. -/
  room : w.tables.lastDashboard < 4294967295
  /-- The tables mirror each other. -/
  mirror : Mirror ρ o w.tables v.tables
  /-- The same stores are open. -/
  owns : ∀ i, (w.clients i).map (·.own) = (v.clients i).map (·.own)

theorem ask_answer (w : Session) (i : Nat) (k : Client) (s : Setting) (r : Request) :
    (w.ask i k s r).1 = (r.run s k.own ⟨w.tables, k.known, k.changed⟩).1 := rfl

theorem ask_owns {w : Session} {i : Nat} {k : Client} (hi : w.clients i = some k) (s : Setting)
    (r : Request) (j : Nat) :
    ((w.ask i k s r).2.clients j).map (·.own) = (w.clients j).map (·.own) := by
  unfold ask seat
  dsimp only
  by_cases hj : j = i
  · rw [if_pos hj, hj, hi]
    rfl
  · rw [if_neg hj]

namespace Mirrors

variable {ρ : Renaming} {o : UserId} {w v : Session}

/-- What stores that remember nothing would have before them. -/
theorem facing (h : Mirrors ρ o w v) (n n' : Nat) :
    Facing ρ o ⟨w.tables, {}, n⟩ ⟨v.tables, {}, n'⟩ where
  calm := ⟨h.regular.tables, rfl⟩
  calm' := ⟨h.regular'.tables, rfl⟩
  counted := h.regular.counted
  counted' := h.regular'.counted
  room := h.room
  mirror := h.mirror

/-- A step of another user takes place in the shared session only. -/
theorem other (h : Mirrors ρ o w v) {st : Step} {owner : UserId} (hclear : st.setting = .clear)
    (howner : st.owner? = some owner) (hne : owner ≠ o)
    (hroom : (w.step st).2.tables.lastDashboard < 4294967295) :
    Mirrors ρ o (w.step st).2 v := by
  obtain ⟨i, s, act⟩ := st
  obtain rfl : s = .clear := hclear
  cases act with
  | join d => cases howner
  | look => cases howner
  | ask r =>
    unfold Session.step at hroom ⊢
    dsimp only at hroom ⊢
    cases hi : w.clients i with
    | none =>
      rw [hi] at hroom
      exact h
    | some k =>
      rw [hi] at hroom
      have hregular := h.regular.ask hi r
      -- Of the tables only what the owner has counts, and that is not touched.
      refine ⟨hregular, h.regular', hroom, ?_, fun j => ?_⟩
      · exact h.mirror.of_share h.regular.tables hregular.tables (run_share howner hne)
          (Store.lastDashboard_le_run _ _ _ _)
      · exact (ask_owns hi .clear r j).trans (h.owns j)

/-- What the owner asks a store for takes place in both sessions, and the answers are alike under a
renaming that goes on from the one there was, however it goes on from there. -/
theorem ask (h : Mirrors ρ o w v) {i : Nat} {k k' : Client} (hi : w.clients i = some k)
    (hi' : v.clients i = some k') {r : Request} (hr : r.owner? = some o)
    (hnamed : ∀ id ∈ r.named?, wide id ≤ v.tables.lastDashboard)
    (hroom : (w.ask i k .clear (r.renamed ρ)).2.tables.lastDashboard < 4294967295) :
    ∃ ρ' : Renaming, ρ'.Agrees ρ v.tables.lastDashboard ∧
      Mirrors ρ' o (w.ask i k .clear (r.renamed ρ)).2 (v.ask i k' .clear r).2 ∧
      ∀ σ : Renaming, σ.Agrees ρ' (v.ask i k' .clear r).2.tables.lastDashboard →
        (w.ask i k .clear (r.renamed ρ)).1 =
          σ.result (Reply.renamed σ) (v.ask i k' .clear r).1 := by
  have hown : k'.own = k.own := by
    have howns := h.owns i
    rw [hi, hi'] at howns
    exact (Option.some.inj howns).symm
  obtain ⟨ρ', hagrees, hm, hanswer⟩ := (h.facing k.changed k'.changed).run hr hnamed k.own
  -- What the stores do remember has no part in the outcome.
  obtain ⟨htold, htables⟩ := Prod.mk.inj
    ((h.regular.steady hi).run_calmed h.regular.tables k.own (r.renamed ρ))
  obtain ⟨htold', htables'⟩ := Prod.mk.inj
    ((h.regular'.steady hi').run_calmed h.regular'.tables k.own r)
  have hleft : (v.ask i k' .clear r).2.tables =
      (r.run .clear k.own ⟨v.tables, {}, k'.changed⟩).2.tables := by
    rw [ask_tables, hown]
    exact htables'
  refine ⟨ρ', hagrees, ?_, fun σ hσ => ?_⟩
  · refine ⟨h.regular.ask hi _, h.regular'.ask hi' _, hroom, ?_, fun j => ?_⟩
    · rw [ask_tables, hleft]
      exact htables ▸ hm
    · rw [ask_owns hi, ask_owns hi']
      exact h.owns j
  · rw [hleft] at hσ
    rw [ask_answer, ask_answer, hown]
    exact htold.trans ((hanswer σ hσ).trans (congrArg (σ.result (Reply.renamed σ)) htold'.symm))

/-- A step of the owner takes place in both sessions: there is one for the owner alone that comes to
the same under a renaming that goes on from the one there was, however it goes on from there. -/
theorem own (h : Mirrors ρ o w v) {st : Step} {had : List UInt32} (hclear : st.setting = .clear)
    (howner : st.owner? = some o) (hnamed : ∀ id ∈ st.named?, id ∈ had.map ρ.short)
    (hpassed : ∀ id ∈ had, wide id ≤ v.tables.lastDashboard)
    (hroom : (w.step st).2.tables.lastDashboard < 4294967295) :
    ∃ (ρ' : Renaming) (st' : Step), ρ'.Agrees ρ v.tables.lastDashboard ∧
      (st'.setting = .clear ∧ st'.owner? = some o ∧ ∀ id ∈ st'.named?, id ∈ had) ∧
      Mirrors ρ' o (w.step st).2 (v.step st').2 ∧
      ∀ σ : Renaming, σ.Agrees ρ' (v.step st').2.tables.lastDashboard →
        (st, (w.step st).1) = σ.exchange (st', (v.step st').1) := by
  obtain ⟨i, s, act⟩ := st
  obtain rfl : s = .clear := hclear
  cases act with
  | join d => cases howner
  | look => cases howner
  | ask r =>
    obtain ⟨r', rfl, howner', hnamed'⟩ := Request.exists_renamed hnamed
    have hr' : r'.owner? = some o := howner'.trans howner
    have hle : ∀ id ∈ r'.named?, wide id ≤ v.tables.lastDashboard :=
      fun id hid => hpassed id (hnamed' id hid)
    have hstep : ∀ σ : Renaming, σ.Agrees ρ v.tables.lastDashboard →
        (⟨i, .clear, .ask (r'.renamed ρ)⟩ : Step) = Step.renamed σ ⟨i, .clear, .ask r'⟩ := by
      intro σ hσ
      show _ = (⟨i, .clear, .ask (r'.renamed σ)⟩ : Step)
      rw [Request.renamed_agrees hσ hle]
    have howns := h.owns i
    unfold Session.step at hroom
    dsimp only at hroom
    cases hi : w.clients i with
    | none =>
      -- What cannot be asked in the one session cannot be asked in the other.
      have hi' : v.clients i = none := by simpa [hi] using howns.symm
      refine ⟨ρ, ⟨i, .clear, .ask r'⟩, fun _ _ => rfl, ⟨rfl, hr', hnamed'⟩, ?_⟩
      unfold Session.step
      simp only [hi, hi']
      refine ⟨h, fun σ hσ => ?_⟩
      rw [hstep σ hσ]
      rfl
    | some k =>
      obtain ⟨k', hi', -⟩ : ∃ k', v.clients i = some k' ∧ k'.own = k.own := by
        rw [hi, Option.map_some] at howns
        exact Option.map_eq_some_iff.mp howns.symm
      rw [hi] at hroom
      obtain ⟨ρ', hagrees, hm, hanswer⟩ := h.ask hi hi' hr' hle hroom
      refine ⟨ρ', ⟨i, .clear, .ask r'⟩, hagrees, ⟨rfl, hr', hnamed'⟩, ?_⟩
      unfold Session.step
      simp only [hi, hi']
      refine ⟨hm, fun σ hσ => ?_⟩
      have hback : v.tables.lastDashboard ≤ (v.ask i k' .clear r').2.tables.lastDashboard :=
        Store.lastDashboard_le_run _ _ _ _
      rw [hstep σ (hσ.trans hagrees hback), hanswer σ hσ]
      rfl

end Mirrors

/-! ## Whole runs -/

/-- Beside every run that is scoped for an owner there is one of the owner alone. -/
theorem Scoped.alone {o : UserId} {had : List UInt32} {w : Session} {steps : List Step}
    (hscoped : Scoped o had w steps) {ρ : Renaming} {had' : List UInt32} {v : Session}
    (h : Mirrors ρ o w v) (hhad : had = had'.map ρ.short)
    (hpassed : ∀ id ∈ had', wide id ≤ v.tables.lastDashboard)
    (hroom : (w.run steps).2.tables.lastDashboard < 4294967295) :
    ∃ (σ : Renaming) (alone : List Step), σ.Agrees ρ v.tables.lastDashboard ∧
      Scoped o had' v alone ∧ Mirrors σ o (w.run steps).2 (v.run alone).2 ∧
      (w.talk steps).filter (·.1.owner? == some o) = (v.talk alone).map σ.exchange := by
  -- The session of the owner alone stands still while others ask for something, so it varies with
  -- what the owner has made in it and with the renaming.
  induction hscoped generalizing ρ had' v with
  | done => exact ⟨ρ, [], fun _ _ => rfl, .done, h, rfl⟩
  | @other had w st steps owner hclear howner hne hrest ih =>
    have hother := h.other hclear howner hne
      (Int.lt_of_le_of_lt (lastDashboard_le_run _ steps) hroom)
    obtain ⟨σ, alone, hσ, hscoped, hm, htalk⟩ := ih hother hhad hpassed hroom
    refine ⟨σ, alone, hσ, hscoped, hm, ?_⟩
    have hskip : ¬ (st.owner? == some o) = true := by
      rw [howner, beq_iff_eq]
      exact fun he => hne (Option.some.inj he)
    rw [talk_cons, List.filter_cons, if_neg hskip]
    exact htalk
  | @own had w st steps hclear howner hnamed hrest ih =>
    subst hhad
    obtain ⟨ρ', st', hρ', ⟨hclear', howner', hnamed'⟩, hown, hexchange⟩ :=
      h.own hclear howner hnamed hpassed (Int.lt_of_le_of_lt (lastDashboard_le_run _ steps) hroom)
    have hback : v.tables.lastDashboard ≤ (v.step st').2.tables.lastDashboard :=
      lastDashboard_le_run v [st']
    -- What was made before keeps its name, and what this step makes is named by the new renaming.
    have hhad : had'.map ρ.short ++ (st.made? (w.step st).1).toList =
        (had' ++ (st'.made? (v.step st').1).toList).map ρ'.short := by
      have hmade : st.made? (w.step st).1 = (st'.made? (v.step st').1).map ρ'.short := by
        rw [← Step.made?_renamed]
        exact congrArg (fun p : Step × Answer => p.1.made? p.2) (hexchange ρ' fun _ _ => rfl)
      rw [hmade, List.map_append, Option.toList_map]
      congr 1
      exact List.map_congr_left fun id hid => (hρ'.short (hpassed id hid)).symm
    have hpassed' : ∀ id ∈ had' ++ (st'.made? (v.step st').1).toList,
        wide id ≤ (v.step st').2.tables.lastDashboard := by
      intro id hid
      rcases List.mem_append.mp hid with hid | hid
      · exact Int.le_trans (hpassed id hid) hback
      · exact step_made_le (Option.mem_toList.mp hid)
    obtain ⟨σ, alone, hσ, hscoped, hm, htalk⟩ := ih hown hhad hpassed' hroom
    refine ⟨σ, st' :: alone, hσ.trans hρ' hback, .own hclear' howner' hnamed' hscoped, hm, ?_⟩
    have hkeep : (st.owner? == some o) = true := by
      rw [howner, beq_self_eq_true]
    rw [talk_cons, talk_cons, List.filter_cons, if_pos hkeep, List.map_cons, htalk,
      hexchange σ hσ]

end Session

/-- The numbers of the dashboards that an owner has. -/
def Session.had (w : Session) (o : UserId) : List UInt32 :=
  (w.tables.boardsOf o).map (cut32 ·.id)

/-- What an owner sees of a run is what it sees of steps of its own, run alone: dashboards that are
made on the way have other numbers, in the same order. -/
structure Session.Replays (w : Session) (o : UserId) (ρ : Renaming) (steps alone : List Step) :
    Prop where
  /-- The dashboards that there were keep their numbers. -/
  fixed : ∀ n, n ≤ w.tables.lastDashboard → ρ.num n = n
  /-- The others have numbers that the run has come to. -/
  fits : ∀ n, n ≤ (w.run alone).2.tables.lastDashboard →
    ρ.num n ≤ (w.run steps).2.tables.lastDashboard
  /-- Alone too, the owner names only dashboards that it had or has made. -/
  names : w.Scoped o (w.had o) alone
  /-- What it asks for and what it is told is the same. -/
  talk : (w.talk steps).filter (·.1.owner? == some o) = (w.talk alone).map ρ.exchange
  /-- What it has in the end is the same. -/
  share : ((w.run steps).2.tables.share (wide o)).plain =
    ((w.run alone).2.tables.share (wide o)).plain.renamed ρ

/-- Whatever has happened to a database, unless a store remembers a fault on a column that is not
there: what an owner sees of a run of any number of owners is what it sees when it is alone, as long
as there are numbers of 32 bits for dashboards. -/
theorem owner_sees_only_itself {past steps : List Step} {o : UserId} {w : Session}
    (hw : ((Session.start .fresh).run past).2 = w)
    (hclients : ∀ i k, w.clients i = some k → ∀ f ∈ k.known.faults, f.strayColumn? = none)
    (hscoped : w.Scoped o (w.had o) steps)
    (hroom : (w.run steps).2.tables.lastDashboard < 4294967295) :
    ∃ ρ alone, w.Replays o ρ steps alone := by
  obtain ⟨hsound, hcounted⟩ := Session.sound_counted past
  rw [hw] at hsound hcounted
  have hregular : w.Regular := ⟨hsound, hcounted, hclients⟩
  have hstart : w.Mirrors .refl o w := by
    refine ⟨hregular, hregular, ?_, .refl o w.tables, fun _ => rfl⟩
    exact Int.lt_of_le_of_lt (w.lastDashboard_le_run steps) hroom
  have hhad : w.had o = (w.had o).map Renaming.refl.short := by
    rw [Renaming.short_refl, List.map_id]
  have hpassed : ∀ id ∈ w.had o, wide id ≤ w.tables.lastDashboard := by
    intro id hid
    obtain ⟨r, hr, rfl⟩ := List.mem_map.mp hid
    obtain ⟨hpos, hle⟩ := hcounted.passed r (List.mem_filter.mp hr).1
    have hlast := hstart.room
    rw [wide_cut32 (Int.le_of_lt hpos) (by omega)]
    exact hle
  obtain ⟨ρ, alone, hagrees, halone, hm, htalk⟩ := hscoped.alone hstart hhad hpassed hroom
  refine ⟨ρ, alone, hagrees, fun n hn => ?_, halone, htalk, ?_⟩
  · exact Int.le_trans (Renaming.num_le hn) hm.mirror.counter
  · exact hm.mirror.share hm.regular.tables hm.regular'.tables

/-- Two users make, move and lose dashboards in turns, each through a store of its own. -/
theorem owner_sees_only_itself_in_company :
    let past : List Step := [⟨0, .clear, .join .sqlite⟩, ⟨1, .clear, .join .postgres⟩,
      ⟨0, .clear, .ask (.createUser "a")⟩, ⟨0, .clear, .ask (.createUser "b")⟩,
      ⟨0, .clear, .ask (.createDashboard (.draft 1 "x"))⟩]
    let steps : List Step := [⟨1, .clear, .ask (.createDashboard (.draft 2 "p"))⟩,
      ⟨0, .clear, .ask (.createDashboard (.draft 1 "y"))⟩,
      ⟨1, .clear, .ask (.recordUse none 2 "k" ⟨1, 0, by decide⟩)⟩,
      ⟨0, .clear, .ask (.moveDashboard 1 3 .up)⟩, ⟨1, .clear, .ask (.removeUser 2)⟩,
      ⟨0, .clear, .ask (.removeDashboard 1 1)⟩, ⟨0, .clear, .ask (.listDashboards 1)⟩]
    let w := ((Session.start .fresh).run past).2
    w.Scoped 1 (w.had 1) steps ∧ (w.run steps).2.tables.lastDashboard < 4294967295 ∧
      ∃ ρ alone, w.Replays 1 ρ steps alone := by
  intro past steps w
  have hclients : ∀ i k, w.clients i = some k → ∀ f ∈ k.known.faults, f.strayColumn? = none :=
    (Session.steady_start.run (by decide : ∀ st ∈ past, st.Fair)).known
  have hscoped : w.Scoped 1 (w.had 1) steps := by
    have hne : (2 : UserId) ≠ 1 := by decide
    refine .other rfl rfl hne (.own rfl rfl ?_ (.other rfl rfl hne (.own rfl rfl ?_
      (.other rfl rfl hne (.own rfl rfl ?_ (.own rfl rfl ?_ .done))))))
    · exact fun _ h => nomatch h
    · intro id hid
      obtain rfl := Option.some.inj hid
      decide +kernel
    · intro id hid
      obtain rfl := Option.some.inj hid
      decide +kernel
    · exact fun _ h => nomatch h
  have hroom : (w.run steps).2.tables.lastDashboard < 4294967295 := by
    obtain ⟨hsound, hcounted⟩ : w.tables.Sound ∧ w.tables.Counted := Session.sound_counted past
    have hlast : w.tables.lastDashboard = 1 := by decide +kernel
    have hle := Session.lastDashboard_run_le hsound hcounted steps
    have hlength : steps.length = 7 := rfl
    omega
  exact ⟨hscoped, hroom, owner_sees_only_itself rfl hclients hscoped hroom⟩

end Pinboard.Store
