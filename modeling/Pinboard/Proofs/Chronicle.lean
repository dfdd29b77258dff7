import Pinboard.Proofs.Founding

/-!
# A chronicle of the journal

A chronicle tells what a process has opened and what it has written to its journal, and where each
line has come to. The invariant `Chronicle` says that the files hold what it tells: each line stands
whole in the file it has come to, in the order of writing, and none came to a file that something
else had opened, unless the log had written there before. Within the log, lines move on from file to
file and never back.
-/

namespace Pinboard

open Files Log Store

/-! ## What there is to tell -/

/-- Something that a process does to files. -/
inductive Mark where
  /-- It opens a file, for a log or for a database. -/
  | opened (file : FileId)
  /-- It writes a line of its journal, within a workspace. -/
  | line (within : Workspace) (text : ByteArray)

/-- A line as the journal has it now. -/
def Workspace.lineOf (w : Workspace) (level : Level) (source message : String) : ByteArray :=
  (lineText w.journal.stamp level source message).toUTF8

/-- The writing of a line. -/
def Workspace.lineMark (w : Workspace) (level : Level) (source message : String) : Mark :=
  .line w (w.lineOf level source message)

/-- What is done to begin the journal: a file is opened, and a first line written, unless there is a
journal already. -/
def Workspace.startMarks (w : Workspace) (dir appName : String) : List Mark :=
  match (RollingLog.start dir appName defaultMaxBytes defaultMaxFiles).run.run w.volume with
  | (.error _, _) => []
  | (.ok log, v) =>
    let begun : Workspace :=
      { w with volume := v, journal := { w.journal with active := some log } }
    .opened log.file.file :: if w.journal.active.isSome then []
      else [begun.lineMark .info journalSource s!"{appName} logger started"]

/-- What is done to open a store: a file is opened, and a line written once all has gone well. -/
def Workspace.openMarks (w : Workspace) (s : Seat) (c : DatabaseConfig) : List Mark :=
  (w.fileReached s c.path).toList.map .opened ++
    match w.openQuietly s c with
    | (.ok (), quiet) =>
      let path := c.path
      let name := c.dialect.name
      [quiet.lineMark .info openSource s!"Database opened at {path} ({name})"]
    | (.error _, _) => []

/-- The lines that the application ends its start with. -/
def Workspace.closingMarks (w : Workspace) (c : Config) : Except OpenError Unit → List Mark
  | .error .waitTooLong => []
  | .error e =>
    let shown := e.message
    [w.lineMark .error journalSource s!"DB init failed: {shown}"]
  | .ok () =>
    let told := (w.tell .info "DB init success").2
    let app := c.log.appName
    let name := c.database.dialect.name
    [w.lineMark .info journalSource "DB init success",
      told.lineMark .info startSource s!"{app} ready, upsert dialect {name}"]

/-- A record does not fit, and the file that it should go behind cannot be set aside. -/
def Workspace.Refuses (w : Workspace) (record : ByteArray) : Prop :=
  ∃ log e v, w.journal.active = some log ∧ log.overflows record.size = true ∧
    log.rotate.run.run w.volume = (.error e, v)

/-- A mark, and for a line the file that it has come to; none for a line that is lost. -/
structure Placed where
  /-- What is done. -/
  mark : Mark
  /-- The file that a line has come to. -/
  file : Option FileId := none

/-- A line that has come to no file was refused where it was written. -/
def Placed.Accounted (p : Placed) : Prop :=
  ∀ w text, p.mark = .line w text → p.file = none → w.Refuses text

/-- The lines that came to a file. -/
def linesIn (id : FileId) (trace : List Placed) : List ByteArray :=
  trace.filterMap fun p =>
    match p.mark, p.file with
    | .line _ text, some file => if file = id then some text else none
    | _, _ => none

/-- The files that lines came to, one after another. -/
def filesOf (trace : List Placed) : List FileId := trace.filterMap (·.file)

/-- The files hold what a trace tells. The number of a file is larger the later it was made. -/
structure Faithful (first : FileId) (v v' : Volume) (trace : List Placed) : Prop where
  /-- Each file holds what it held, or a database if that was as good as nothing, and behind it the
  lines that came to it, in their order. -/
  contents : ∀ id, ∃ base, (base = v.content id ∨
    (v.content id).size ≤ 1 ∧ base = databaseImage) ∧
      v'.content id = base ++ joined (linesIn id trace)
  /-- Lines come to the log's first file and to files that are made for them. -/
  own : ∀ id, linesIn id trace ≠ [] → id = first ∨ v.contents.size ≤ id
  /-- They come to a file that was opened before only if it is the first, or a line had come to it
  before it was opened. -/
  apart : ∀ past later id, trace = past ++ later → (∃ p ∈ past, p.mark = .opened id) →
    linesIn id later ≠ [] → id = first ∨ linesIn id past ≠ []
  /-- Once a line has come to a file, no later one comes to a file that was made before that. -/
  order : (filesOf trace).Pairwise (· ≤ ·)
  /-- A line is lost only if it is refused. -/
  lost : ∀ p ∈ trace, p.Accounted

/-! ## What the journal does -/

namespace Workspace

section

variable {w : Workspace} {log : RollingLog} {dir appName : String} {v : Volume} {e : FileError}

theorem startJournal_unopened
    (hrun : (RollingLog.start dir appName defaultMaxBytes defaultMaxFiles).run.run w.volume =
      (.error e, v)) :
    w.startJournal dir appName = (.error (.unopened e), { w with volume := v }) := by
  unfold startJournal Journal.start
  rw [hrun]

theorem startJournal_installed
    (hrun : (RollingLog.start dir appName defaultMaxBytes defaultMaxFiles).run.run w.volume =
      (.ok log, v)) (hactive : w.journal.active.isSome) :
    w.startJournal dir appName = (.error .installed, { w with volume := v }) := by
  obtain ⟨own, hown⟩ := Option.isSome_iff_exists.mp hactive
  unfold startJournal Journal.start
  rw [hrun]
  dsimp only
  rw [hown]

theorem startJournal_begun
    (hrun : (RollingLog.start dir appName defaultMaxBytes defaultMaxFiles).run.run w.volume =
      (.ok log, v)) (hnone : w.journal.active = none) :
    w.startJournal dir appName =
      (.ok (), { w with volume := v, journal := { w.journal with active := some log } }.note .info
        journalSource s!"{appName} logger started") := by
  unfold startJournal Journal.start
  rw [hrun]
  dsimp only
  rw [hnone]
  rfl

theorem tell_missing (hnone : w.journal.active = none) (level : Level) (message : String) :
    w.tell level message = (.error .missing, w) := by
  unfold tell Journal.tell
  rw [hnone]

theorem tell_active (hactive : w.journal.active.isSome) (level : Level) (message : String) :
    w.tell level message = (.ok (), w.note level journalSource message) := by
  obtain ⟨own, hown⟩ := Option.isSome_iff_exists.mp hactive
  unfold tell Journal.tell
  rw [hown]
  rfl

theorem note_missing (hnone : w.journal.active = none) (level : Level) (source message : String) :
    w.note level source message = w := by
  unfold note Journal.write
  rw [hnone]

/-- A line that is refused before anything was moved changes nothing. -/
theorem note_refused {level : Level} {source message : String}
    (hactive : w.journal.active = some log)
    (hfull : log.overflows (w.lineOf level source message).size = true)
    (hrotate : log.rotate.run.run w.volume = (.error e, w.volume)) :
    w.note level source message = w := by
  have hwrite : (log.write (w.lineOf level source message)).run.run w.volume =
      (.error e, w.volume) := by
    rw [write_overflows hfull]
    exact FileAction.run_bind_error hrotate
  unfold lineOf at hwrite
  unfold note Journal.write
  rw [hactive]
  dsimp only
  rw [hwrite]

end

end Workspace

/-! ## Lines in files -/

section Lines

variable {id : FileId} {trace past later : List Placed}

theorem linesIn_append (id : FileId) (past later : List Placed) :
    linesIn id (past ++ later) = linesIn id past ++ linesIn id later := List.filterMap_append

theorem filesOf_append (past later : List Placed) :
    filesOf (past ++ later) = filesOf past ++ filesOf later := List.filterMap_append

theorem linesIn_none (id : FileId) (m : Mark) : linesIn id [⟨m, none⟩] = [] := by
  cases m <;> rfl

theorem linesIn_line (id file : FileId) (w : Workspace) (text : ByteArray) :
    linesIn id [⟨.line w text, some file⟩] = if file = id then [text] else [] := by
  unfold linesIn
  by_cases h : file = id <;> simp [h]

/-- Lines are at least as much as each of them. -/
theorem size_le_joined {text : ByteArray} {lines : List ByteArray} (h : text ∈ lines) :
    text.size ≤ (joined lines).size := by
  induction lines with
  | nil => cases h
  | cons line lines ih =>
    rw [joined_cons, ByteArray.size_append]
    rcases List.mem_cons.mp h with rfl | h
    · omega
    · have := ih h
      omega

/-- One more mark is the last of a trace, or it is behind all that there is. -/
theorem concat_eq_append {p : Placed} (h : trace ++ [p] = past ++ later) :
    later = [] ∨ ∃ front, later = front ++ [p] ∧ trace = past ++ front := by
  rcases List.eq_nil_or_concat later with rfl | ⟨front, q, rfl⟩
  · exact Or.inl rfl
  · rw [List.concat_eq_append, ← List.append_assoc] at h
    obtain ⟨hfront, hlast⟩ := List.append_inj' h rfl
    cases hlast
    exact Or.inr ⟨front, List.concat_eq_append, hfront⟩

end Lines

/-! ## The invariant -/

/-- What the files hold is as the trace tells, and the journal writes on in a file of its log. -/
structure Chronicle (path : String) (first : FileId) (v : Volume) (trace : List Placed)
    (w : Workspace) : Prop where
  /-- The files hold what the trace tells. -/
  faithful : Faithful first v w.volume trace
  /-- No file is gone, though its name may be. -/
  grown : v.contents.size ≤ w.volume.contents.size
  /-- Every name of a file leads to one. -/
  backed : w.volume.Backed
  /-- What was opened is there. -/
  there : ∀ p ∈ trace, ∀ id, p.mark = .opened id → id < w.volume.contents.size
  /-- No line is as good as nothing. -/
  long : ∀ id, ∀ text ∈ linesIn id trace, 2 ≤ text.size
  /-- The journal appends to a file of its log, the last that a line has come to. -/
  writing : ∃ log, w.journal.active = some log ∧ log.path = path ∧ log.Appends w.volume ∧
    (log.file.file = first ∨ linesIn log.file.file trace ≠ []) ∧
    ∀ id ∈ filesOf trace, id ≤ log.file.file

namespace Chronicle

variable {path : String} {first : FileId} {v : Volume} {trace : List Placed} {w w' : Workspace}

theorem path_eq (h : Chronicle path first v trace w) : w.journal.path? = some path := by
  obtain ⟨log, hactive, hpath, -⟩ := h.writing
  unfold Journal.path?
  rw [hactive, ← hpath]
  rfl

/-- A file that lines have come to holds something, so that nobody makes a database of it. -/
theorem founded (h : Chronicle path first v trace w) (hjournal : w'.journal = w.journal)
    (hv : w.volume.Founded w'.volume) : Chronicle path first v trace w' := by
  refine ⟨⟨fun id => ?_, h.faithful.own, h.faithful.apart, h.faithful.order, h.faithful.lost⟩,
    Nat.le_trans h.grown hv.size, hv.backed h.backed,
    fun p hp id hid => Nat.lt_of_lt_of_le (h.there p hp id hid) hv.size, h.long, ?_⟩
  · obtain ⟨base, hbase, hcontent⟩ := h.faithful.contents id
    rcases hv.content id with hsame | ⟨hsmall, hnew⟩
    · exact ⟨base, hbase, hsame.trans hcontent⟩
    · -- A line has two bytes or more, too much for a file that is taken for a database.
      have hnone : linesIn id trace = [] := by
        refine List.eq_nil_iff_forall_not_mem.mpr fun text htext => ?_
        have hlong := h.long id text htext
        have hle := size_le_joined htext
        rw [hcontent, ByteArray.size_append] at hsmall
        omega
      have hheld : w.volume.content id = base := by
        rw [hcontent, hnone]
        exact ByteArray.append_empty
      refine ⟨databaseImage, Or.inr ⟨?_, rfl⟩, ?_⟩
      · rcases hbase with rfl | ⟨hlittle, -⟩
        · rw [← hheld]
          exact hsmall
        · exact hlittle
      · rw [hnew, hnone]
        exact ByteArray.append_empty.symm
  · obtain ⟨log, hactive, hpath, happends, hfile⟩ := h.writing
    exact ⟨log, hjournal ▸ hactive, hpath, happends.of_size hv.size, hfile⟩

/-- A mark that is no line in any file, for something that is opened or a line that is lost. -/
theorem concat (h : Chronicle path first v trace w) {m : Mark}
    (hthere : ∀ id, m = .opened id → id < w.volume.contents.size)
    (hlost : Placed.Accounted ⟨m, none⟩) :
    Chronicle path first v (trace ++ [⟨m, none⟩]) w := by
  have hlines : ∀ id, linesIn id (trace ++ [⟨m, none⟩]) = linesIn id trace := by
    intro id
    rw [linesIn_append, linesIn_none, List.append_nil]
  have hfiles : filesOf (trace ++ [⟨m, none⟩]) = filesOf trace := by
    rw [filesOf_append]
    exact List.append_nil _
  refine ⟨⟨fun id => ?_, fun id => ?_, fun past later id hsplit hopened hlater => ?_,
    hfiles ▸ h.faithful.order, fun q hq => ?_⟩, h.grown, h.backed, fun q hq id hid => ?_,
    fun id => ?_, ?_⟩
  · rw [hlines]
    exact h.faithful.contents id
  · rw [hlines]
    exact h.faithful.own id
  · rcases concat_eq_append hsplit with rfl | ⟨front, rfl, hfront⟩
    · exact absurd rfl hlater
    · rw [linesIn_append, linesIn_none, List.append_nil] at hlater
      exact h.faithful.apart past front id hfront hopened hlater
  · rcases List.mem_append.mp hq with hq | hq
    · exact h.faithful.lost q hq
    · rw [List.mem_singleton.mp hq]
      exact hlost
  · rcases List.mem_append.mp hq with hq | hq
    · exact h.there q hq id hid
    · rw [List.mem_singleton.mp hq] at hid
      exact hthere id hid
  · rw [hlines]
    exact h.long id
  · obtain ⟨log, hactive, hpath, happends, hown, hlast⟩ := h.writing
    exact ⟨log, hactive, hpath, happends, by rwa [hlines], by rwa [hfiles]⟩

theorem opened (h : Chronicle path first v trace w) {file : FileId}
    (hfile : file < w.volume.contents.size) :
    Chronicle path first v (trace ++ [⟨.opened file, none⟩]) w := by
  refine h.concat (fun id hid => ?_) fun w text hmark => nomatch hmark
  cases hid
  exact hfile

/-- A line goes to the file that the log writes to, or to one that is new: in both cases to none
that something else has opened without a line being there already, and to none that is older than
one that a line has come to. -/
theorem line (h : Chronicle path first v trace w) {text : ByteArray} {log : RollingLog}
    (happends : log.Appends w'.volume) (hpath : log.path = path)
    (hactive : w'.journal.active = some log) (hlong : 2 ≤ text.size)
    (happended : Appended log.file.file (w.volume.content log.file.file) text w.volume w'.volume)
    (hwhere : (log.file.file = first ∨ linesIn log.file.file trace ≠ []) ∨
      w.volume.contents.size ≤ log.file.file)
    (hlast : ∀ id ∈ filesOf trace, id ≤ log.file.file) (within : Workspace) :
    Chronicle path first v (trace ++ [⟨.line within text, some log.file.file⟩]) w' := by
  have hlines : ∀ id, linesIn id (trace ++ [⟨.line within text, some log.file.file⟩]) =
      linesIn id trace ++ if log.file.file = id then [text] else [] := by
    intro id
    rw [linesIn_append, linesIn_line]
  have hmine : linesIn log.file.file (trace ++ [⟨.line within text, some log.file.file⟩]) ≠ [] := by
    rw [hlines, if_pos rfl]
    exact List.append_ne_nil_of_right_ne_nil _ (List.cons_ne_nil _ _)
  have hfiles : filesOf (trace ++ [⟨.line within text, some log.file.file⟩]) =
      filesOf trace ++ [log.file.file] := filesOf_append _ _
  refine ⟨⟨fun id => ?_, fun id hid => ?_, fun past later id hsplit hopened hlater => ?_, ?_,
    fun q hq => ?_⟩, Nat.le_trans h.grown happended.size, happended.backed h.backed,
    fun q hq id hid => ?_, fun id text' htext => ?_,
    ⟨log, hactive, hpath, happends, Or.inr hmine, ?_⟩⟩
  · obtain ⟨base, hbase, hcontent⟩ := h.faithful.contents id
    refine ⟨base, hbase, ?_⟩
    rw [happended.content, hlines]
    by_cases hid : id = log.file.file
    · rw [if_pos hid, if_pos hid.symm, ← hid, hcontent, joined_concat, ByteArray.append_assoc]
    · rw [if_neg hid, if_neg (Ne.symm hid), List.append_nil, hcontent]
  · by_cases hsame : log.file.file = id
    · subst hsame
      rcases hwhere with (hfirst | hold) | hnew
      · exact Or.inl hfirst
      · exact h.faithful.own _ hold
      · exact Or.inr (Nat.le_trans h.grown hnew)
    · rw [hlines, if_neg hsame, List.append_nil] at hid
      exact h.faithful.own id hid
  · rcases concat_eq_append hsplit with rfl | ⟨front, rfl, hfront⟩
    · exact absurd rfl hlater
    by_cases hbefore : linesIn id front = []
    · -- The new line is the first one to come to the file since it was opened.
      have hsame : log.file.file = id := by
        by_contra hother
        rw [linesIn_append, linesIn_line, if_neg hother, hbefore] at hlater
        exact hlater rfl
      subst hsame
      rcases hwhere with (hfirst | hold) | hnew
      · exact Or.inl hfirst
      · rw [hfront, linesIn_append, hbefore, List.append_nil] at hold
        exact Or.inr hold
      · -- What was opened is there already, and cannot be a new file.
        obtain ⟨p, hp, hmark⟩ := hopened
        have hlt := h.there p (hfront ▸ List.mem_append_left front hp) _ hmark
        exact absurd hlt (Nat.not_lt.mpr hnew)
    · exact h.faithful.apart past front id hfront hopened hbefore
  · rw [hfiles]
    refine List.pairwise_append.mpr ⟨h.faithful.order, List.pairwise_singleton _ _, ?_⟩
    intro id hid file hfile
    rw [List.mem_singleton.mp hfile]
    exact hlast id hid
  · rcases List.mem_append.mp hq with hq | hq
    · exact h.faithful.lost q hq
    · rw [List.mem_singleton.mp hq]
      exact fun _ _ _ hnone => nomatch hnone
  · rcases List.mem_append.mp hq with hq | hq
    · exact Nat.lt_of_lt_of_le (h.there q hq id hid) happended.size
    · rw [List.mem_singleton.mp hq] at hid
      cases hid
  · rw [hlines] at htext
    rcases List.mem_append.mp htext with htext | htext
    · exact h.long id text' htext
    · split at htext
      · rw [List.mem_singleton.mp htext]
        exact hlong
      · cases htext
  · intro id hid
    rw [hfiles] at hid
    rcases List.mem_append.mp hid with hid | hid
    · exact hlast id hid
    · exact Nat.le_of_eq (List.mem_singleton.mp hid)

/-- A line that is written comes to a file or is refused. -/
theorem note (h : Chronicle path first v trace w) (level : Level) (source message : String) :
    ∃ file, Chronicle path first v (trace ++ [⟨w.lineMark level source message, file⟩])
      (w.note level source message) := by
  obtain ⟨log, hactive, hpath, happends, hown, hlast⟩ := h.writing
  have hlong : 2 ≤ (w.lineOf level source message).size :=
    two_le_size_lineText w.journal.stamp level source message
  unfold Workspace.note Journal.write Workspace.lineMark
  rw [hactive]
  dsimp only
  rcases hrun : (log.write (w.lineOf level source message)).run.run w.volume with ⟨e | log', v'⟩ <;>
    have hwrite := hrun <;> unfold Workspace.lineOf at hwrite <;> rw [hwrite]
  · -- Only names of files may have changed before the line was refused.
    obtain ⟨hfull, hrotate⟩ := rotate_error_of_write hrun
    have hsame := RollingLog.rearranged_of_write_error hrun
    have hkept : Chronicle path first v trace { w with volume := v' } :=
      h.founded rfl hsame.founded
    refine ⟨none, hkept.concat (fun id hid => nomatch hid) fun w' text hmark _ => ?_⟩
    cases hmark
    exact ⟨log, e, v', hactive, hfull, hrotate⟩
  · obtain ⟨happends', hpath', happended, hwhere⟩ := happends.write h.backed hrun
    refine ⟨some log'.file.file,
      h.line happends' (hpath'.trans hpath) rfl hlong happended ?_ (fun id hid => ?_) w⟩
    · rcases hwhere with hsame | hnew
      · rw [hsame]
        exact Or.inl hown
      · exact Or.inr hnew
    · -- A file that is new has a larger number than all that there were.
      rcases hwhere with hsame | hnew
      · rw [hsame]
        exact hlast id hid
      · exact Nat.le_trans (hlast id hid) (Nat.le_trans (Nat.le_of_lt happends.there) hnew)

theorem active (h : Chronicle path first v trace w) : w.journal.active.isSome := by
  obtain ⟨log, hactive, -⟩ := h.writing
  rw [hactive]
  rfl

/-- Once there is a journal, no other is begun, though a file may be opened for it. -/
theorem start (h : Chronicle path first v trace w) (dir appName : String) :
    ∃ more, more.map (·.mark) = w.startMarks dir appName ∧
      Chronicle path first v (trace ++ more) (w.startJournal dir appName).2 ∧
      ∃ e, (w.startJournal dir appName).1 = .error e := by
  have hspared := RollingLog.start_spares dir appName defaultMaxBytes defaultMaxFiles w.volume
  unfold Workspace.startMarks
  rcases hrun : (RollingLog.start dir appName defaultMaxBytes defaultMaxFiles).run.run w.volume with
    ⟨e | log, v'⟩ <;> rw [hrun] at hspared
  · rw [Workspace.startJournal_unopened hrun]
    refine ⟨[], rfl, ?_, _, rfl⟩
    rw [List.append_nil]
    exact h.founded rfl hspared.founded
  · rw [Workspace.startJournal_installed hrun h.active]
    have hkept : Chronicle path first v trace { w with volume := v' } :=
      h.founded rfl hspared.founded
    obtain ⟨hopened, -⟩ := RollingLog.start_appends (by decide) h.backed hrun
    refine ⟨[⟨.opened log.file.file, none⟩], ?_, hkept.opened hopened.there, _, rfl⟩
    dsimp only
    rw [if_pos h.active]
    rfl

theorem openStore (h : Chronicle path first v trace w) (s : Seat) (c : DatabaseConfig) :
    ∃ more, more.map (·.mark) = w.openMarks s c ∧
      Chronicle path first v (trace ++ more) (w.openStore s c).2 := by
  obtain ⟨hjournal, hvolume, hthere⟩ := w.openQuietly_founded h.backed s c
  obtain ⟨reached, hmarks, hquiet⟩ : ∃ reached : List Placed,
      reached.map (·.mark) = (w.fileReached s c.path).toList.map .opened ∧
        Chronicle path first v (trace ++ reached) (w.openQuietly s c).2 := by
    have hkept := h.founded hjournal hvolume
    cases hfile : w.fileReached s c.path with
    | none => exact ⟨[], rfl, (List.append_nil trace).symm ▸ hkept⟩
    | some id => exact ⟨[⟨.opened id, none⟩], rfl, hkept.opened (hthere id hfile)⟩
  unfold Workspace.openMarks Workspace.openStore
  rcases hopen : w.openQuietly s c with ⟨e | _, quiet⟩ <;> rw [hopen] at hquiet
  · refine ⟨reached, ?_, hquiet⟩
    rw [hmarks]
    exact (List.append_nil _).symm
  · obtain ⟨file, hnoted⟩ := hquiet.note .info openSource
      (let path := c.path
       let name := c.dialect.name
       s!"Database opened at {path} ({name})")
    rw [List.append_assoc] at hnoted
    refine ⟨reached ++ [⟨_, file⟩], ?_, hnoted⟩
    rw [List.map_append, hmarks]
    rfl

/-- The start of the application, once it has tried to begin the journal. -/
theorem bootstrap {c : Config}
    (h : Chronicle path first v trace (w.startJournal c.log.dir c.log.appName).2) (s : Seat) :
    let begun := (w.startJournal c.log.dir c.log.appName).2
    ∃ more, more.map (·.mark) = begun.openMarks s c.database ++
        (begun.openStore s c.database).2.closingMarks c (begun.openStore s c.database).1 ∧
      Chronicle path first v (trace ++ more) (w.bootstrap s c).2 := by
  intro begun
  obtain ⟨opening, hmarks, hopened⟩ := h.openStore s c.database
  unfold Workspace.bootstrap Workspace.closingMarks
  dsimp only
  rcases hopen : begun.openStore s c.database with ⟨result, w1⟩
  rw [hopen] at hopened
  have htold := Workspace.tell_active hopened.active
  cases result with
  | error e =>
    obtain ⟨file, hnoted⟩ := hopened.note .error journalSource s!"DB init failed: {e.message}"
    rw [List.append_assoc] at hnoted
    cases e with
    | waitTooLong => exact ⟨opening, by rw [hmarks, List.append_nil], hopened⟩
    | _ =>
      dsimp only
      rw [htold]
      refine ⟨_, ?_, hnoted⟩
      rw [List.map_append, hmarks]
      rfl
  | ok _ =>
    obtain ⟨file, hnoted⟩ := hopened.note .info journalSource "DB init success"
    obtain ⟨file', hnoted'⟩ := hnoted.note .info startSource _
    dsimp only
    rw [htold]
    rw [List.append_assoc, List.append_assoc] at hnoted'
    refine ⟨_, ?_, hnoted'⟩
    rw [List.map_append, hmarks]
    rfl

/-- The first log that is opened for the journal begins it. -/
theorem begun {dir appName : String} (hnone : w.journal.active = none) (hv : w.volume.Backed)
    (hok : (w.startJournal dir appName).1 = .ok ()) :
    ∃ first trace, trace.map (·.mark) = w.startMarks dir appName ∧
      (w.startMarks dir appName).head? = some (.opened first) ∧
      Chronicle (activePath dir appName) first w.volume trace (w.startJournal dir appName).2 := by
  have hspared := RollingLog.start_spares dir appName defaultMaxBytes defaultMaxFiles w.volume
  unfold Workspace.startMarks
  rcases hrun : (RollingLog.start dir appName defaultMaxBytes defaultMaxFiles).run.run w.volume with
    ⟨e | log, v'⟩ <;> rw [hrun] at hspared
  · rw [Workspace.startJournal_unopened hrun] at hok
    cases hok
  · obtain ⟨happends, hpath⟩ := RollingLog.start_appends (by decide) hv hrun
    -- The invariant holds of the empty trace, before the first line is noted.
    have hempty : Chronicle (activePath dir appName) log.file.file w.volume []
        { w with volume := v', journal := { w.journal with active := some log } } := by
      refine ⟨⟨fun id => ⟨_, Or.inl rfl, ?_⟩, fun id hid => absurd rfl hid,
        fun past later id hsplit _ hlater => ?_, .nil, fun p hp => nomatch hp⟩, hspared.size,
        hspared.backed hv, fun p hp => (nomatch hp), fun id text htext => (nomatch htext),
        ⟨log, rfl, hpath, happends, Or.inl rfl, fun id hid => nomatch hid⟩⟩
      · exact (hspared.content id).trans ByteArray.append_empty.symm
      · rw [(List.append_eq_nil_iff.mp hsplit.symm).2] at hlater
        exact absurd rfl hlater
    obtain ⟨file, hnoted⟩ := (hempty.opened happends.there).note .info journalSource
      s!"{appName} logger started"
    rw [Workspace.startJournal_begun hrun hnone]
    refine ⟨log.file.file, _, ?_, rfl, hnoted⟩
    rw [hnone]
    rfl

end Chronicle

end Pinboard
