import Pinboard.Proofs.Isolation
import Pinboard.Proofs.WellFormed

/-!
# Numbers are given out once

Users and dashboards are numbered by counters that never go back, so what has gone leaves no number
to others: along a session the numbers go up by one each time, as far as 32 bits hold them. A new
user gets a number that no user has, so nothing in the tables belongs to it yet, whoever had gone
before.
-/

namespace Pinboard.Store

/-! ## What steps give out -/

/-- The user that a step has made. -/
def Step.enrolled? (st : Step) (a : Answer) : Option UserId :=
  match st.act, a with
  | .ask (.createUser _), .asked (.ok (.user (some u))) => some u.id
  | _, _ => none

theorem Step.enrolled?_eq_some {st : Step} {a : Answer} {id : UserId}
    (h : st.enrolled? a = some id) :
    ∃ name u, st.act = .ask (.createUser name) ∧ a = .asked (.ok (.user (some u))) ∧ u.id = id := by
  unfold Step.enrolled? at h
  split at h
  · rename_i name u hact
    exact ⟨name, u, hact, rfl, Option.some.inj h⟩
  · cases h

namespace Session

/-- The numbers that the steps of a run have given out, in their order. -/
def given (w : Session) (given? : Step → Answer → Option UInt32) (steps : List Step) :
    List UInt32 :=
  (w.talk steps).filterMap fun p => given? p.1 p.2

/-- The users that a run has made. -/
def newUsers (w : Session) (steps : List Step) : List UserId := w.given Step.enrolled? steps

/-- The dashboards that a run has made. -/
def newDashboards (w : Session) (steps : List Step) : List UInt32 := w.given Step.made? steps

theorem given_cons (w : Session) (given? : Step → Answer → Option UInt32) (st : Step)
    (steps : List Step) : w.given given? (st :: steps) =
      (given? st (w.step st).1).toList ++ (w.step st).2.given given? steps := by
  unfold given
  rw [talk_cons, List.filterMap_cons]
  cases given? st (w.step st).1 <;> rfl

theorem given_append (w : Session) (given? : Step → Answer → Option UInt32)
    (before after : List Step) : w.given given? (before ++ after) =
      w.given given? before ++ (w.run before).2.given given? after := by
  induction before generalizing w with
  | nil => rfl
  | cons st before ih =>
    rw [List.cons_append, given_cons, given_cons, ih, run_cons, List.append_assoc]

end Session

/-! ## Counters -/

theorem Effect.lastUser_eq {t t' : Tables} {r : Request} {a : Reply} (h : Effect t r a t')
    (hr : ∀ name, r ≠ .createUser name) : t'.lastUser = t.lastUser := by
  cases h with
  | createUser => exact absurd rfl (hr _)
  | recordUse hput =>
    obtain ⟨rows, rfl⟩ := hput.only_recents
    rfl
  | recordUses hputs =>
    obtain ⟨rows, rfl⟩ := hputs.only_recents
    rfl
  | _ => rfl

/-- A user that is made moves the counter on to its number. -/
theorem Effect.createUser_counts {t t' : Tables} {name : String} {a : Reply}
    (h : Effect t (.createUser name) a t') (he : t.Enrolled) :
    ∃ u, a = .user (some u) ∧ u.id = cut32 (t.lastUser + 1) ∧ t'.lastUser = t.lastUser + 1 := by
  cases h with
  | question hq => cases hq
  | createUser hblank hrows hn hname =>
    have hpassed := he.passed
    rw [Tables.people_eq hrows] at hpassed
    have hnext := nextNumber_eq_succ he.start (fun u hu => (hpassed u hu).2) hn
    refine ⟨_, rfl, by rw [hnext], ?_⟩
    show max t.lastUser _ = _
    omega

/-- A counter goes up by one with each number that is given out, which is the number that it comes
to, cut to 32 bits, and stands still otherwise. -/
structure Counts (count : Tables → Int) (given? : Step → Answer → Option UInt32) : Prop where
  /-- Where nothing is given out, the counter stands still. -/
  still : ∀ {w : Session} {st : Step}, w.tables.Kept → given? st (w.step st).1 = none →
    count (w.step st).2.tables = count w.tables
  /-- What is given out is counted. -/
  gives : ∀ {w : Session} {st : Step} {id : UInt32}, w.tables.Kept →
    given? st (w.step st).1 = some id →
    id = cut32 (count w.tables + 1) ∧ count (w.step st).2.tables = count w.tables + 1

/-- It is enough that each granted request moves the counter on as it gives out numbers. -/
theorem Counts.of_effect {count : Tables → Int} {given? : Step → Answer → Option UInt32}
    (hgranted : ∀ {st answer id}, given? st answer = some id →
      ∃ r a, st.act = .ask r ∧ answer = .asked (.ok a))
    (heffect : ∀ {t t' r a st}, Effect t r a t' → t.Kept → st.act = .ask r →
      (given? st (.asked (.ok a)) = none ∧ count t' = count t) ∨
        given? st (.asked (.ok a)) = some (cut32 (count t + 1)) ∧ count t' = count t + 1) :
    Counts count given? where
  still := by
    intro w st hw hnone
    rcases w.step_cases st with h | ⟨d, -, h⟩ | ⟨r, a, hact, ha, heff⟩
    · rw [h]
    · rw [h, hw.sound.addMissing]
    · rcases heffect heff hw hact with ⟨-, hstill⟩ | ⟨hsome, -⟩
      · exact hstill
      · rw [ha, hsome] at hnone
        cases hnone
  gives := by
    intro w st id hw hsome
    obtain ⟨r, a, hact, ha⟩ := hgranted hsome
    obtain ⟨own, c, hc, hyields⟩ := Session.step_granted hact ha
    have heff := run_effect hyields
    rw [hc] at heff
    rw [ha] at hsome
    rcases heffect heff hw hact with ⟨hnone, -⟩ | ⟨hgiven, hcount⟩
    · rw [hnone] at hsome
      cases hsome
    · rw [hgiven] at hsome
      exact ⟨(Option.some.inj hsome).symm, hcount⟩

theorem counts_users : Counts (·.lastUser) Step.enrolled? := by
  refine .of_effect (fun h => ?_) fun {t t' r a st} heff hk hact => ?_
  · obtain ⟨name, u, hact, ha, -⟩ := Step.enrolled?_eq_some h
    exact ⟨_, _, hact, ha⟩
  · unfold Step.enrolled?
    rw [hact]
    cases r with
    | createUser name =>
      obtain ⟨u, rfl, hid, hcount⟩ := heff.createUser_counts hk.enrolled
      exact Or.inr ⟨congrArg some hid, hcount⟩
    | _ => exact Or.inl ⟨rfl, heff.lastUser_eq fun _ => Request.noConfusion⟩

theorem counts_dashboards : Counts (·.lastDashboard) Step.made? := by
  refine .of_effect (fun h => ?_) fun {t t' r a st} heff hk hact => ?_
  · obtain ⟨draft, d, hact, ha, -⟩ := Step.made?_eq_some h
    exact ⟨_, _, hact, ha⟩
  · unfold Step.made?
    rw [hact]
    cases r with
    | createDashboard draft =>
      obtain ⟨d, rfl, hid, hcount⟩ := heff.createDashboard_counts hk.counted
      exact Or.inr ⟨congrArg some hid, hcount⟩
    | _ => exact Or.inl ⟨rfl, heff.lastDashboard_eq fun _ => Request.noConfusion⟩

section Counts

variable {count : Tables → Int} {given? : Step → Answer → Option UInt32}

theorem Session.step_kept {w : Session} (hw : w.tables.Kept) (st : Step) :
    (w.step st).2.tables.Kept := Session.run_kept hw [st]

/-- The counter tells how many numbers a run has given out. -/
theorem Counts.count_run (h : Counts count given?) {w : Session} (hw : w.tables.Kept)
    (steps : List Step) :
    count (w.run steps).2.tables = count w.tables + (w.given given? steps).length := by
  induction steps generalizing w with
  | nil => exact (Int.add_zero _).symm
  | cons st steps ih =>
    rw [Session.run_cons, Session.given_cons, ih (Session.step_kept hw st)]
    cases hgiven : given? st (w.step st).1 with
    | none =>
      rw [h.still hw hgiven]
      rfl
    | some id =>
      rw [(h.gives hw hgiven).2, Option.toList_some, List.singleton_append, List.length_cons]
      omega

/-- The numbers that a run gives out are those after the counter, one after another. -/
theorem Counts.given_eq (h : Counts count given?) {w : Session} (hw : w.tables.Kept)
    (steps : List Step) :
    w.given given? steps = (List.range (w.given given? steps).length).map
      fun i => cut32 (count w.tables + 1 + (i : Nat)) := by
  induction steps generalizing w with
  | nil => rfl
  | cons st steps ih =>
    have hrest := ih (Session.step_kept hw st)
    rw [Session.given_cons]
    cases hgiven : given? st (w.step st).1 with
    | none =>
      rw [h.still hw hgiven] at hrest
      exact hrest
    | some id =>
      -- the rest of the run counts from the next number on
      obtain ⟨rfl, hcount⟩ := h.gives hw hgiven
      rw [hcount] at hrest
      rw [Option.toList_some, List.singleton_append, List.length_cons, List.range_succ_eq_map,
        List.map_cons, List.map_map, List.cons.injEq]
      refine ⟨by simp, hrest.trans (List.map_congr_left fun i _ => ?_)⟩
      have hnext : count w.tables + 1 + 1 + (i : Nat) = count w.tables + 1 + (i + 1 : Nat) := by
        omega
      rw [hnext]
      rfl

theorem cut32_lt {m n : Int} (h0 : 0 ≤ m) (hlt : m < n) (hn : n < 4294967296) :
    cut32 m < cut32 n := by
  have hm := wide_cut32 h0 (Int.lt_trans hlt hn)
  have hn := wide_cut32 (Int.le_trans h0 (Int.le_of_lt hlt)) hn
  unfold wide at hm hn
  rw [UInt32.lt_iff_toNat_lt]
  omega

/-- As long as there are numbers of 32 bits, a run gives out larger and larger ones. -/
theorem Counts.increasing (h : Counts count given?) {w : Session} (hw : w.tables.Kept)
    (hstart : 0 ≤ count w.tables) {steps : List Step}
    (hroom : count w.tables + (w.given given? steps).length < 4294967296) :
    (w.given given? steps).Pairwise (· < ·) := by
  rw [h.given_eq hw, List.pairwise_map]
  refine List.Pairwise.imp_of_mem (fun {i j} hi hj hlt => ?_) List.pairwise_lt_range
  have hj := List.mem_range.mp hj
  exact cut32_lt (by omega) (by omega) (by omega)

end Counts

/-! ## New users -/

/-- Nothing in the tables belongs to a user. -/
structure Tables.Bare (t : Tables) (o : Int) : Prop where
  /-- It has no dashboards. -/
  boards : ∀ r ∈ t.boards, r.owner ≠ o
  /-- It has no tags. -/
  definitions : ∀ r ∈ t.definitions, r.owner ≠ o
  /-- It has used no key. -/
  uses : ∀ r ∈ t.uses, r.owner ≠ o

/-- A number that no user has is nobody's. -/
theorem Tables.WellFormed.bare {t : Tables} (ht : t.WellFormed) {o : Int} (ho : ¬ t.HasUser o) :
    t.Bare o where
  boards := fun r hr he => ho (he ▸ ht.boardOwners r hr)
  definitions := fun r hr he => ho (he ▸ ht.tagOwners r hr)
  uses := fun r hr he => ho (he ▸ ht.useOwners r hr)

/-- Whoever can read the tables reads nothing of a user's in them. -/
def Tables.ReadsEmpty (t : Tables) (o : UserId) : Prop :=
  ∀ (c : Connection) (s : Setting), c.tables = t → s.beginReading = .ok () →
    (listDashboards s o c).1 = .ok [] ∧ (listTags s o c).1 = .ok [] ∧
      (rankTags s o c).1 = .ok [] ∧ ∀ key, (findUse s o key c).1 = .ok none

theorem Tables.Bare.readsEmpty {t : Tables} {o : UserId} (h : t.Bare (wide o)) (hs : t.Sound) :
    t.ReadsEmpty o := by
  rintro c s rfl hread
  have hshown : c.tables.shownDashboards o = .ok [] := by
    have hnone : c.tables.boardsOf o = [] := by
      simpa [Tables.boardsOf, List.filter_eq_nil_iff] using h.boards
    rw [hs.shownDashboards, Tables.shown, hnone, List.mergeSort_nil]
  have htags : c.tables.tagsOf o = .ok [] := by
    have hnone : c.tables.definitionsOf o = [] := by
      simpa [Tables.definitionsOf, List.filter_eq_nil_iff] using h.definitions
    rw [hs.tagsOf, hnone]
  have huse : ∀ key, c.tables.useOf? (wide o) key = none := by
    intro key
    unfold Tables.useOf?
    rw [Option.map_eq_none_iff, List.find?_eq_none]
    intro r hr hfor
    exact h.uses r hr (RecentRow.isFor_iff.mp hfor).1
  refine ⟨?_, ?_, ?_, fun key => ?_⟩
  · unfold listDashboards
    rw [inspect_table hread (hs.mem_present _), hshown]
    rfl
  · unfold listTags
    rw [inspect_table hread (hs.mem_present _), htags, except_ok_bind, List.mergeSort_nil]
    rfl
  · unfold rankTags
    rw [inspect_ranking hread (hs.mem_present _) (hs.mem_present _),
      Tables.recentRows_eq_ok.mpr hs.recents_eq, htags, except_ok_bind, except_ok_bind,
      List.mergeSort_nil]
    rfl
  · rw [findUse_readable hread hs, huse]

/-- When a user is made, nothing belongs to it. -/
theorem Effect.createUser_bare {t t' : Tables} {name : String} {a : Reply}
    (h : Effect t (.createUser name) a t') (hk : t.Kept) : t'.Bare (t.lastUser + 1) := by
  -- what the counter has not passed is no user's number, and rows belong to users only
  have hnobody : ¬ t.HasUser (t.lastUser + 1) := by
    rintro ⟨u, hu, hid⟩
    have hle := (hk.enrolled.passed u hu).2
    omega
  have hbare := hk.wellFormed.bare hnobody
  cases h with
  | question hq => cases hq
  | createUser => exact ⟨hbare.boards, hbare.definitions, hbare.uses⟩

/-- Where a user can be made, the tables can be read. -/
theorem createUser_reads {s : Setting} {own : Dialect.Strategy} {name : String} {c : Connection}
    {a : Reply} {t : Tables} (h : (Request.run s own (.createUser name)).Yields c a t) :
    s.beginReading = .ok () := by
  simp only [Request.run, Operation.map_yields] at h
  obtain ⟨u, h, -⟩ := h
  unfold createUser at h
  by_cases hb : Text.allBlank name = true
  · rw [if_pos hb] at h
    exact absurd h Operation.refused_not_yields
  · rw [if_neg hb] at h
    obtain ⟨-, -, hbegin, -⟩ := autocommit_yields.mp h
    obtain ⟨u, hread, -⟩ := except_bind_eq_ok.mp hbegin
    exact hread

/-- In every session that begins on fresh tables, whatever the stores are asked for and whatever
surrounds each step, the numbers of new users go up, as do those of new dashboards, whoever owns
them, as long as there are numbers of 32 bits for them. The user that a step has made has nothing,
and the tables can be read where it was made. -/
theorem numbers_never_reused {w : Session} (hfresh : w.tables = .fresh) {steps : List Step}
    (husers : (w.newUsers steps).length < 4294967295)
    (hboards : (w.newDashboards steps).length < 4294967295) :
    (w.newUsers steps).Pairwise (· < ·) ∧ (w.newDashboards steps).Pairwise (· < ·) ∧
      ∀ before st after, steps = before ++ st :: after →
        ∀ id ∈ st.enrolled? ((w.run before).2.step st).1,
          st.setting.beginReading = .ok () ∧
            ((w.run before).2.step st).2.tables.ReadsEmpty id := by
  have hw : w.tables.Kept := hfresh ▸ Tables.kept_fresh
  have hlastUser : w.tables.lastUser = 0 := by rw [hfresh]; rfl
  have hlastDashboard : w.tables.lastDashboard = 0 := by rw [hfresh]; rfl
  refine ⟨counts_users.increasing hw (Int.le_of_eq hlastUser.symm) ?_,
    counts_dashboards.increasing hw (Int.le_of_eq hlastDashboard.symm) ?_, ?_⟩
  · rw [Session.newUsers] at husers
    omega
  · rw [Session.newDashboards] at hboards
    omega
  rintro before st after rfl id hid
  have hbefore : (w.run before).2.tables.Kept := Session.run_kept hw before
  -- the counter tells how many users were made before, so its next number is one of 32 bits
  have hcount := counts_users.count_run hw before
  have hfew : (w.run before).2.tables.lastUser + 1 < 4294967296 := by
    rw [Session.newUsers, Session.given_append, List.length_append] at husers
    omega
  obtain ⟨name, u, hact, ha, rfl⟩ := Step.enrolled?_eq_some hid
  obtain ⟨own, c, hc, hmade⟩ := Session.step_granted hact ha
  have heff := run_effect hmade
  rw [hc] at heff
  have hnumber : wide u.id = (w.run before).2.tables.lastUser + 1 := by
    rw [(counts_users.gives hbefore hid).1]
    have hstart := hbefore.enrolled.start
    exact wide_cut32 (by omega) hfew
  refine ⟨createUser_reads hmade, Tables.Bare.readsEmpty ?_ (Session.step_kept hbefore st).sound⟩
  rw [hnumber]
  exact heff.createUser_bare hbefore

/-- A user goes, with all that it had, and the next one gets a number of its own. -/
theorem numbers_never_reused_after_removal :
    let before : List Step := [⟨0, .clear, .join .sqlite⟩, ⟨0, .clear, .ask (.createUser "a")⟩,
      ⟨0, .clear, .ask (.createDashboard (.draft 1 "x"))⟩,
      ⟨0, .clear, .ask (.createTag ⟨1, "k", "#000000", .noValue⟩)⟩,
      ⟨0, .clear, .ask (.recordUse none 1 "k" ⟨1, 0, by decide⟩)⟩,
      ⟨0, .clear, .ask (.removeUser 1)⟩]
    let st : Step := ⟨0, .clear, .ask (.createUser "b")⟩
    let after : List Step := [⟨1, .clear, .join .postgres⟩,
      ⟨1, .clear, .ask (.createDashboard (.draft 2 "y"))⟩]
    let w := Session.start .fresh
    w.newUsers (before ++ st :: after) = [1, 2] ∧
      w.newDashboards (before ++ st :: after) = [1, 2] ∧
      ((w.run before).2.step st).2.tables.ReadsEmpty 2 := by
  intro before st after w
  have husers : w.newUsers (before ++ st :: after) = [1, 2] := by decide +kernel
  have hboards : w.newDashboards (before ++ st :: after) = [1, 2] := by decide +kernel
  have hnew : st.enrolled? ((w.run before).2.step st).1 = some 2 := by decide +kernel
  have hfewUsers : (w.newUsers (before ++ st :: after)).length < 4294967295 := by
    rw [husers]
    decide
  have hfewBoards : (w.newDashboards (before ++ st :: after)).length < 4294967295 := by
    rw [hboards]
    decide
  obtain ⟨-, -, hempty⟩ := numbers_never_reused rfl hfewUsers hfewBoards
  obtain ⟨-, hbare⟩ := hempty before st after rfl 2 hnew
  exact ⟨husers, hboards, hbare⟩

end Pinboard.Store
