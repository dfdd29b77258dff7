import Pinboard.Proofs.Chronicle

/-!
# One journal for a process

The first log that is opened for a process's journal stays, whatever the process does then. Until
there is one, nothing is written; from then on lines go to its files only.
-/

namespace Pinboard

open Files Log Store

/-! ## Calls -/

/-- What a process is asked to do that concerns its journal. -/
inductive Call where
  /-- To begin the journal in a log. -/
  | init (dir appName : String)
  /-- To start the application. -/
  | bootstrap (seat : Seat) (config : Config)
  /-- To write a line. -/
  | tell (level : Level) (message : String)

/-- What comes of a call, be it for the journal itself or for the application. -/
inductive Answer where
  /-- What comes of beginning the journal, or of writing a line. -/
  | journal (result : Except JournalError Unit)
  /-- What comes of starting the application. -/
  | application (result : Except OpenError Unit)

/-- What a call answers, and the workspace that it leaves. -/
def Call.run (w : Workspace) : Call → Answer × Workspace
  | .init dir appName =>
    let (result, w) := w.startJournal dir appName
    (.journal result, w)
  | .bootstrap s c =>
    let (result, w) := w.bootstrap s c
    (.application result, w)
  | .tell level message =>
    let (result, w) := w.tell level message
    (.journal result, w)

/-- A call and what came of it. -/
structure Exchange where
  /-- The call. -/
  call : Call
  /-- The workspace before the call. -/
  before : Workspace
  /-- What came of it. -/
  answer : Answer
  /-- The workspace after the call. -/
  after : Workspace

/-- Answers a call. -/
def Workspace.exchange (w : Workspace) (call : Call) : Exchange :=
  ⟨call, w, (call.run w).1, (call.run w).2⟩

/-- Answers call after call. -/
def Workspace.serve (w : Workspace) : List Call → List Exchange × Workspace
  | [] => ([], w)
  | call :: calls =>
    let x := w.exchange call
    let (xs, w) := x.after.serve calls
    (x :: xs, w)

/-- What is done on a call. -/
def Exchange.marks (x : Exchange) : List Mark :=
  match x.call with
  | .init dir appName => x.before.startMarks dir appName
  | .tell level message => [x.before.lineMark level journalSource message]
  | .bootstrap s c =>
    let begun := (x.before.startJournal c.log.dir c.log.appName).2
    x.before.startMarks c.log.dir c.log.appName ++ begun.openMarks s c.database ++
      (begun.openStore s c.database).2.closingMarks c (begun.openStore s c.database).1

namespace Exchange

/-- There is no journal, and nothing is written. -/
def Silent (x : Exchange) : Prop :=
  x.before.journal.path? = none ∧ x.after.journal.path? = none ∧
    match x.call with
    | .init _ _ => ∃ e, x.answer = .journal (.error e)
    | .bootstrap _ c => ∃ e, (x.before.startJournal c.log.dir c.log.appName).1 = .error e
    | .tell _ _ => x.answer = .journal (.error .missing) ∧ x.after = x.before

/-- The journal is begun, in a log at a path, and the file there is opened. -/
def Begins (x : Exchange) (path : String) (file : FileId) : Prop :=
  x.before.journal.path? = none ∧ x.after.journal.path? = some path ∧
    x.marks.head? = some (.opened file) ∧
    match x.call with
    | .init dir appName => path = activePath dir appName ∧ x.answer = .journal (.ok ())
    | .bootstrap _ c => path = activePath c.log.dir c.log.appName ∧
      (x.before.startJournal c.log.dir c.log.appName).1 = .ok ()
    | .tell _ _ => False

/-- The journal goes on, and no other is begun. -/
def Continues (x : Exchange) (path : String) : Prop :=
  x.before.journal.path? = some path ∧ x.after.journal.path? = some path ∧
    match x.call with
    | .init _ _ => ∃ e, x.answer = .journal (.error e)
    | .bootstrap _ c => ∃ e, (x.before.startJournal c.log.dir c.log.appName).1 = .error e
    | .tell _ _ => x.answer = .journal (.ok ())

/-- A trace tells what was done on a call. -/
def Traced (x : Exchange) (trace : List Placed) : Prop := trace.map (·.mark) = x.marks

end Exchange

/-! ## One call -/

section Exchange

variable {path : String} {first : FileId} {v : Volume} {trace : List Placed} {w : Workspace}

theorem Workspace.exchange_init {dir appName : String} {result : Except JournalError Unit}
    {w' : Workspace} (h : w.startJournal dir appName = (result, w')) :
    w.exchange (.init dir appName) = ⟨.init dir appName, w, .journal result, w'⟩ := by
  unfold exchange
  simp only [Call.run, h]

theorem Workspace.exchange_bootstrap {s : Seat} {c : Config} {result : Except OpenError Unit}
    {w' : Workspace} (h : w.bootstrap s c = (result, w')) :
    w.exchange (.bootstrap s c) = ⟨.bootstrap s c, w, .application result, w'⟩ := by
  unfold exchange
  simp only [Call.run, h]

theorem Workspace.exchange_tell {level : Level} {message : String}
    {result : Except JournalError Unit} {w' : Workspace}
    (h : w.tell level message = (result, w')) :
    w.exchange (.tell level message) = ⟨.tell level message, w, .journal result, w'⟩ := by
  unfold exchange
  simp only [Call.run, h]

theorem Exchange.marks_bootstrap (w w' : Workspace) (s : Seat) (c : Config) (a : Answer) :
    (Exchange.mk (.bootstrap s c) w a w').marks = w.startMarks c.log.dir c.log.appName ++
      ((w.startJournal c.log.dir c.log.appName).2.openMarks s c.database ++
        ((w.startJournal c.log.dir c.log.appName).2.openStore s c.database).2.closingMarks c
          ((w.startJournal c.log.dir c.log.appName).2.openStore s c.database).1) :=
  List.append_assoc _ _ _

/-- Where a journal cannot be begun, there is still none, and only names of files have changed. -/
theorem Workspace.startJournal_failed {dir appName : String} {e : JournalError}
    (hnone : w.journal.active = none) (hfailed : (w.startJournal dir appName).1 = .error e) :
    w.Reached (w.startJournal dir appName).2 := by
  have hspared := RollingLog.start_spares dir appName defaultMaxBytes defaultMaxFiles w.volume
  rcases hrun : (RollingLog.start dir appName defaultMaxBytes defaultMaxFiles).run.run w.volume with
    ⟨e | log, v'⟩ <;> rw [hrun] at hspared
  · rw [startJournal_unopened hrun]
    exact ⟨rfl, rfl, hspared⟩
  · rw [startJournal_begun hrun hnone] at hfailed
    cases hfailed

/-- Without a journal, nothing is noted that opening a store has to tell. -/
theorem Workspace.openStore_silent (hnone : w.journal.active = none) (hv : w.volume.Backed)
    (s : Seat) (c : DatabaseConfig) :
    (w.openStore s c).2.journal.active = none ∧ (w.openStore s c).2.volume.Backed := by
  obtain ⟨hjournal, hvolume, -⟩ := w.openQuietly_founded hv s c
  rw [← hjournal] at hnone
  have hbacked := hvolume.backed hv
  unfold openStore
  rcases hopen : w.openQuietly s c with ⟨e | _, quiet⟩ <;> rw [hopen] at hnone hbacked
  · exact ⟨hnone, hbacked⟩
  · dsimp only
    rw [note_missing hnone]
    exact ⟨hnone, hbacked⟩

/-- Without a journal, starting the application tells nothing. -/
theorem Workspace.bootstrap_silent {c : Config} {e : JournalError} (hnone : w.journal.active = none)
    (hv : w.volume.Backed) (hfailed : (w.startJournal c.log.dir c.log.appName).1 = .error e)
    (s : Seat) :
    (w.bootstrap s c).2.journal.active = none ∧ (w.bootstrap s c).2.volume.Backed := by
  have hstarted := startJournal_failed hnone hfailed
  have hopened :=
    openStore_silent (hstarted.journal ▸ hnone) (hstarted.volume.backed hv) s c.database
  unfold bootstrap
  dsimp only
  rcases hopen : (w.startJournal c.log.dir c.log.appName).2.openStore s c.database with ⟨result, w1⟩
  rw [hopen] at hopened
  cases result with
  | error e =>
    cases e with
    | waitTooLong => exact hopened
    | _ =>
      dsimp only
      rw [tell_missing hopened.1]
      exact hopened
  | ok _ =>
    dsimp only
    rw [tell_missing hopened.1]
    dsimp only
    rw [note_missing hopened.1]
    exact hopened

/-- A call before there is a journal begins one, or leaves the process without. -/
theorem Workspace.exchange_first (hnone : w.journal.active = none) (hv : w.volume.Backed)
    (call : Call) :
    ((w.exchange call).Silent ∧ (w.exchange call).after.journal.active = none ∧
      (w.exchange call).after.volume.Backed) ∨
    ∃ path first trace, (w.exchange call).Begins path first ∧ (w.exchange call).Traced trace ∧
      Chronicle path first w.volume trace (w.exchange call).after := by
  have hpath : ∀ w' : Workspace, w'.journal.active = none → w'.journal.path? = none := by
    intro w' h
    unfold Journal.path?
    rw [h]
    rfl
  cases call with
  | init dir appName =>
    rcases hstart : w.startJournal dir appName with ⟨e | _, w'⟩ <;> rw [exchange_init hstart] <;>
      have hresult := congrArg Prod.fst hstart
    · have hreached := startJournal_failed hnone hresult
      rw [hstart] at hreached
      have hafter : w'.journal.active = none := by rw [hreached.journal, hnone]
      exact Or.inl ⟨⟨hpath w hnone, hpath w' hafter, e, rfl⟩, hafter, hreached.volume.backed hv⟩
    · obtain ⟨first, trace, hmarks, hhead, hafter⟩ := Chronicle.begun hnone hv hresult
      rw [hstart] at hafter
      exact Or.inr
        ⟨_, first, trace, ⟨hpath w hnone, hafter.path_eq, hhead, rfl, rfl⟩, hmarks, hafter⟩
  | bootstrap s c =>
    rcases hrun : w.bootstrap s c with ⟨result, w'⟩
    rw [exchange_bootstrap hrun]
    cases hstart : (w.startJournal c.log.dir c.log.appName).1 with
    | error e =>
      have hsilent := bootstrap_silent hnone hv hstart s
      rw [hrun] at hsilent
      exact Or.inl ⟨⟨hpath w hnone, hpath w' hsilent.1, e, hstart⟩, hsilent⟩
    | ok _ =>
      obtain ⟨first, trace, hmarks, hhead, hbegun⟩ := Chronicle.begun hnone hv hstart
      obtain ⟨more, hmarks', hafter⟩ := hbegun.bootstrap s
      rw [hrun] at hafter
      refine Or.inr
        ⟨_, first, trace ++ more, ⟨hpath w hnone, hafter.path_eq, ?_, rfl, hstart⟩, ?_, hafter⟩
      · rw [Exchange.marks_bootstrap, List.head?_append, hhead, Option.some_or]
      · unfold Exchange.Traced
        rw [List.map_append, hmarks, hmarks', Exchange.marks_bootstrap]
  | tell level message =>
    rw [exchange_tell (tell_missing hnone level message)]
    exact Or.inl ⟨⟨hpath w hnone, hpath w hnone, rfl, rfl⟩, hnone, hv⟩

/-- Once there is a journal, a call leaves it in its place. -/
theorem Chronicle.exchange (h : Chronicle path first v trace w) (call : Call) :
    ∃ more, (w.exchange call).Traced more ∧ (w.exchange call).Continues path ∧
      Chronicle path first v (trace ++ more) (w.exchange call).after := by
  cases call with
  | init dir appName =>
    obtain ⟨more, hmarks, hafter, e, he⟩ := h.start dir appName
    rcases hstart : w.startJournal dir appName with ⟨result, w'⟩
    rw [hstart] at hafter he
    rw [Workspace.exchange_init hstart]
    exact ⟨more, hmarks, ⟨h.path_eq, hafter.path_eq, e, congrArg Answer.journal he⟩, hafter⟩
  | bootstrap s c =>
    obtain ⟨starting, hmarks, hstarted, hfailed⟩ := h.start c.log.dir c.log.appName
    obtain ⟨more, hmarks', hafter⟩ := hstarted.bootstrap s
    rcases hrun : w.bootstrap s c with ⟨result, w'⟩
    rw [hrun, List.append_assoc] at hafter
    rw [Workspace.exchange_bootstrap hrun]
    refine ⟨starting ++ more, ?_, ⟨h.path_eq, hafter.path_eq, hfailed⟩, hafter⟩
    unfold Exchange.Traced
    rw [List.map_append, hmarks, hmarks', Exchange.marks_bootstrap]
  | tell level message =>
    obtain ⟨file, hnoted⟩ := h.note level journalSource message
    rw [Workspace.exchange_tell (Workspace.tell_active h.active level message)]
    exact ⟨[⟨_, file⟩], rfl, ⟨h.path_eq, hnoted.path_eq, rfl⟩, hnoted⟩

end Exchange

/-! ## Call after call -/

theorem Workspace.serve_cons (w : Workspace) (call : Call) (calls : List Call) :
    w.serve (call :: calls) =
      (w.exchange call :: ((w.exchange call).after.serve calls).1,
        ((w.exchange call).after.serve calls).2) := rfl

/-- Once there is a journal, it stays whatever calls come. -/
theorem Chronicle.serve {path : String} {first : FileId} {v : Volume} {trace : List Placed}
    {w : Workspace} (h : Chronicle path first v trace w) (calls : List Call) :
    ∃ traces, List.Forall₂ Exchange.Traced (w.serve calls).1 traces ∧
      (∀ x ∈ (w.serve calls).1, x.Continues path) ∧
      Chronicle path first v (trace ++ traces.flatten) (w.serve calls).2 := by
  induction calls generalizing w trace with
  | nil => exact ⟨[], .nil, fun x hx => (nomatch hx), (List.append_nil trace).symm ▸ h⟩
  | cons call calls ih =>
    obtain ⟨more, htraced, hcontinues, hafter⟩ := h.exchange call
    obtain ⟨traces, hall, hrest, hlast⟩ := ih hafter
    rw [Workspace.serve_cons]
    refine ⟨more :: traces, .cons htraced hall, List.forall_mem_cons.mpr ⟨hcontinues, hrest⟩, ?_⟩
    rw [List.flatten_cons, ← List.append_assoc]
    exact hlast

/-- The journal of a process is begun once and never redirected. Until it is begun there is none,
and nothing is written. From then on it stays at the path of the log that was opened first, no other
is begun, and every line is accepted. Each line comes to one file, in the order of the calls: to the
first file of that log or to one that is made for it, never to one that is older than a file that
has had a line since, and to one that something else has opened only if the log had written to it
before. A line is lost only if it does not fit and the file before it cannot be set aside; then it
comes to no file. -/
theorem journal_never_redirected {w : Workspace} (hnone : w.journal.active = none)
    (hfiles : w.volume.Backed) (calls : List Call) :
    ∃ silent told, (w.serve calls).1 = silent ++ told ∧ (∀ x ∈ silent, x.Silent) ∧
      ∀ x later, told = x :: later → ∃ path first traces, x.Begins path first ∧
        (∀ y ∈ later, y.Continues path) ∧ List.Forall₂ Exchange.Traced told traces ∧
        Faithful first x.before.volume (w.serve calls).2.volume traces.flatten := by
  -- A silent call leaves a process without a journal, so that the induction goes on behind it. From
  -- the first other call on, the chronicle tells the rest.
  induction calls generalizing w with
  | nil => exact ⟨[], [], rfl, fun x hx => (nomatch hx), fun x later h => nomatch h⟩
  | cons call calls ih =>
    rw [Workspace.serve_cons]
    rcases w.exchange_first hnone hfiles call with
      ⟨hsilent, hafter, hbacked⟩ | ⟨path, first, trace, hbegins, htraced, hafter⟩
    · obtain ⟨silent, told, hsplit, hall, htold⟩ := ih hafter hbacked
      refine ⟨w.exchange call :: silent, told, ?_, List.forall_mem_cons.mpr ⟨hsilent, hall⟩, htold⟩
      rw [hsplit]
      rfl
    · obtain ⟨traces, hall, hrest, hlast⟩ := hafter.serve calls
      refine ⟨[], _, rfl, fun x hx => (nomatch hx), fun x later hcons => ?_⟩
      cases hcons
      exact ⟨path, first, trace :: traces, hbegins, hrest, .cons htraced hall, hlast.faithful⟩

/-- Somebody asks for a line too early, for another log later, and then for a line again. -/
theorem journal_never_redirected_by_second_log :
    let w : Workspace := { volume := .empty, journal := { stamp := "" } }
    let calls : List Call :=
      [.tell .info "early", .init "." "App", .init "." "B", .tell .error "late"]
    w.journal.active = none ∧ w.volume.Backed ∧ (∃ silent x later,
      (w.serve calls).1 = silent ++ x :: later ∧ (∀ y ∈ silent, y.Silent) ∧
      ∃ path first, x.Begins path first ∧ ∀ y ∈ later, y.Continues path) ∧
    (w.serve calls).2.journal.path? = some "./App.log" ∧
    (w.serve calls).2.volume.content 1 = ByteArray.empty := by
  intro w calls
  have hfiles : w.volume.Backed := by
    intro n hn id hid
    rcases List.mem_cons.mp hn with rfl | hn
    · cases hid
    · rw [List.mem_singleton.mp hn] at hid
      cases hid
  have hpaths : (w.serve calls).1.map (·.after.journal.path?) =
      [none, some "./App.log", some "./App.log", some "./App.log"] := by decide +kernel
  obtain ⟨silent, told, hsplit, hsilent, htold⟩ := journal_never_redirected rfl hfiles calls
  refine ⟨rfl, hfiles, ?_, by decide +kernel, by decide +kernel⟩
  cases told with
  | nil =>
    have hnone : some "./App.log" ∈ (w.serve calls).1.map (·.after.journal.path?) := by
      rw [hpaths]
      decide
    obtain ⟨x, hx, hpath⟩ := List.mem_map.mp hnone
    rw [hsplit, List.append_nil] at hx
    rw [(hsilent x hx).2.1] at hpath
    cases hpath
  | cons x later =>
    obtain ⟨path, first, traces, hbegins, hcontinues, -⟩ := htold x later rfl
    exact ⟨silent, x, later, hsplit, hsilent, path, first, hbegins, hcontinues⟩

/-- A line that was accepted is lost when the file before it is full and cannot be set aside, here
because a directory stands in the last place. And a line comes to a file that somebody has opened
for another journal in vain, if they have opened the log's own. -/
theorem line_lost_or_in_opened_file :
    (let held : ByteArray := ⟨Array.replicate defaultMaxBytes 0⟩
      let v : Volume := ⟨[(["tmp"], .directory), (home, .directory), (home ++ ["App.log"], .file 0),
        (home ++ ["App.log.3"], .directory)], #[held]⟩
      let w : Workspace := { volume := v, journal := { stamp := "" } }
      let begun := (w.startJournal "." "App").2
      (w.startJournal "." "App").1 = .ok () ∧ (begun.tell .info "x").1 = .ok () ∧
        (begun.tell .info "x").2.volume = v) ∧
    (let w : Workspace := { volume := .empty, journal := { stamp := "" } }
      let begun := (w.startJournal "." "App").2
      let again := (begun.startJournal "." "App").2
      (begun.startJournal "." "App").1.isOk = false ∧
        ((RollingLog.start "." "App" defaultMaxBytes defaultMaxFiles).run.run
          begun.volume).1.toOption.map (·.file.file) = some 0 ∧
        (again.tell .info "x").1.isOk = true ∧
        (again.tell .info "x").2.volume.content 0 =
          again.volume.content 0 ++ again.lineOf .info journalSource "x") := by
  refine ⟨?_, by decide +kernel⟩
  intro held v w begun
  let log : RollingLog := ⟨".", "App", defaultMaxBytes, defaultMaxFiles, ⟨0, true, 0⟩, held.size⟩
  let full : Workspace := { volume := v, journal := { active := some log, stamp := "" } }
  have hheld : held.size = defaultMaxBytes := Array.size_replicate
  have hstart : (RollingLog.start "." "App" defaultMaxBytes defaultMaxFiles).run.run w.volume =
      (.ok log, v) := by
    have hmake : (FileAction.makeDirectoryAll ".").run.run v = (.ok (), v) :=
      FileAction.makeDirectoryAll_again (Or.inr rfl)
    have hactive : v.locate (activePath "." "App") = .ok ⟨home ++ ["App.log"], false⟩ := rfl
    have hopen : (OpenFile.append (activePath "." "App")).run.run v = (.ok ⟨0, true, 0⟩, v) :=
      FileAction.run_bind_ok (FileAction.openOrCreate_file hactive rfl)
    exact (FileAction.run_bind_ok hmake).trans (FileAction.run_bind_ok hopen)
  -- The directory in the last place cannot be dropped, and the log cannot move on.
  have hblocked : log.rotate.run.run v = (.error .isADirectory, v) :=
    RollingLog.rotate_blocked rfl (by decide +kernel) (by decide +kernel) (by decide +kernel)
  have hlost : ∀ level source message, full.note level source message = full := by
    intro level source message
    have hsize := two_le_size_lineText "" level source message
    refine Workspace.note_refused rfl (RollingLog.overflows_full hheld (by decide) ?_) hblocked
    exact Nat.lt_of_lt_of_le (by decide) hsize
  have hbegun : w.startJournal "." "App" = (.ok (), full) := by
    refine (Workspace.startJournal_begun hstart rfl).trans ?_
    show (Except.ok (), full.note .info journalSource _) = _
    rw [hlost]
  have htold : full.tell .info "x" = (.ok (), full) := by
    rw [Workspace.tell_active rfl, hlost]
  have hfull : begun = full := congrArg Prod.snd hbegun
  rw [hbegun, hfull, htold]
  exact ⟨rfl, rfl, rfl⟩

end Pinboard
