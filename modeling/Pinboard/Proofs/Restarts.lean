import Pinboard.Proofs.Attempts
import Pinboard.Proofs.SharedFiles

/-!
# Restarting a log

A log that is dropped and opened again goes on as if it had not been: what it knows besides its
limits, the file it writes to and the bytes in it, can be told from the active file. The invariant
`Sole` says so of a log that has its files to itself. It is kept by every write, also by one that
fails, and opening the log again establishes it without changing anything.
-/

namespace Pinboard.Log

open Files

/-! ## Ways to the files of a log -/

/-- The active file of a log can be reached, and no file of the log is on the way. The others may be
out of reach: a name that ends in a number can be too long. -/
structure Rack.Led (r : Rack) (dir appName : String) (n : Nat) (v : Volume) : Prop where
  /-- No file is on the way to any of them. -/
  passes : ∀ i, ∀ q ∈ Volume.passes (filePath dir appName i), r.Clear n q
  /-- The path of the active file leads to its place. -/
  active : v.locate (activePath dir appName) = .ok ⟨r.place 0, false⟩

/-- No directory stands at a place of a log. -/
def Rack.Plain (r : Rack) (n : Nat) (v : Volume) : Prop :=
  ∀ i ≤ n, v.node? (r.place i) ≠ some .directory

section Rack

variable {r r' : Rack} {dir appName path : String} {n i j : Nat} {v v' : Volume}

theorem Rack.eq_of_place (h : r.place i = r'.place i) : r = r' := by
  obtain ⟨hparent, hname⟩ := List.append_inj' h rfl
  have hstem : r.stem.toList = r'.stem.toList := by simpa [← String.toList_inj] using hname
  cases r
  cases r'
  simp_all

theorem exists_rack {t : Volume.Target} (hactive : v.locate (activePath dir appName) = .ok t) :
    ∃ r : Rack, t = ⟨r.place 0, false⟩ := by
  obtain ⟨absolute, front, stem, hpath⟩ := exists_names dir appName
  obtain ⟨d, -, ht⟩ := locate_filePath (hpath 0) hactive
  exact ⟨⟨d, stem⟩, ht⟩

/-- The files of a log are in one directory, and it is the same whatever has happened. -/
theorem leads_of_active (hactive : v.locate (activePath dir appName) = .ok ⟨r.place 0, false⟩)
    (v' : Volume) (i : Nat) : v'.Leads (filePath dir appName i) (r.place i) := by
  intro t ht
  obtain ⟨absolute, front, stem, hpath⟩ := exists_names dir appName
  obtain ⟨d, hwalk, hplace⟩ := locate_filePath (hpath 0) hactive
  obtain ⟨d', hwalk', rfl⟩ := locate_filePath (hpath i) ht
  have hr : r = ⟨d, stem⟩ := Rack.eq_of_place (congrArg Volume.Target.place hplace)
  have hd : d = d' := (Volume.walk_eq_foldl hwalk).trans (Volume.walk_eq_foldl hwalk').symm
  rw [hr, hd]

theorem Rack.Led.leads (h : r.Led dir appName n v) (i : Nat) :
    v.Leads (filePath dir appName i) (r.place i) := leads_of_active h.active v i

theorem led_of_active (hactive : v.locate (activePath dir appName) = .ok ⟨r.place 0, false⟩)
    (hplain : r.Plain n v) : r.Led dir appName n v := by
  refine ⟨fun i => ?_, hactive⟩
  obtain ⟨absolute, front, stem, hpath⟩ := exists_names dir appName
  obtain ⟨d, hwalk, -⟩ := locate_filePath (hpath 0) hactive
  have hpasses : Volume.passes (filePath dir appName i) =
      Volume.passed (if absolute = true then [] else home) front := by
    unfold Volume.passes
    rw [hpath]
    simp only [List.dropLast_concat]
  rw [hpasses]
  exact clear_of_passed (Rack.clear_start n absolute) (Volume.directory_of_passed hwalk) hplain

/-- What happens at the places of a log does not change the ways to them. -/
theorem Rack.Led.of_apart (h : r.Led dir appName n v) (ha : r.Apart n v v') :
    r.Led dir appName n v' := by
  have hway : ∀ q ∈ Volume.passes (activePath dir appName), v'.node? q = v.node? q :=
    fun q hq => ha q (h.passes 0 q hq)
  exact ⟨h.passes, Volume.locate_congr h.active hway⟩

/-- The way to a directory does not lead through a file of a log, nor to it. -/
theorem clear_of_isDirectory (hdir : v.isDirectory path = true) (hplain : r.Plain n v) :
    (∀ q ∈ Volume.passes path, r.Clear n q) ∧
      ∀ t, v.locate path = .ok t → r.Clear n t.place := by
  obtain ⟨t, hlocate, hnode⟩ := Volume.isDirectory_iff.mp hdir
  have hstart : r.Clear n (if (Path.ofText path).absolute = true then [] else home) :=
    Rack.clear_start n _
  have hway : ∀ q ∈ Volume.passes path, r.Clear n q :=
    clear_of_passed hstart (Volume.directory_of_passes hlocate) hplain
  refine ⟨hway, fun t' ht' => ?_⟩
  cases hlocate.symm.trans ht'
  have happroach := (Volume.locate_eq_ok.mp hlocate).1
  cases hlast : (Path.ofText path).names.getLast? with
  | none =>
    unfold Volume.approach at happroach
    simp only [hlast] at happroach
    split at happroach
    · cases happroach
    split at happroach
    · cases happroach
    split at happroach
    · cases happroach
    cases happroach
    exact hstart
  | some last =>
    obtain ⟨d, hwalk, rfl⟩ := Volume.approach_eq_ok happroach hlast
    have hd : r.Clear n d := by
      rcases Volume.walk_end hwalk with rfl | hd
      · exact hstart
      · exact hway d hd
    by_cases hdot : last = "."
    · rw [if_pos hdot]
      exact hd
    by_cases hup : last = ".."
    · rw [if_neg hdot, if_pos hup]
      exact hd.dropLast
    · rw [if_neg hdot, if_neg hup] at hnode ⊢
      refine hd.append fun i hi heq => ?_
      rw [← heq] at hnode
      exact hplain i hi hnode

/-- What happens at the places of a log leaves directories where they are. -/
theorem makeDirectoryAll_again_of_apart
    (hmade : (Path.ofText path).steps = [] ∨ v.isDirectory path = true) (hplain : r.Plain n v)
    (ha : r.Apart n v v') : (FileAction.makeDirectoryAll path).run.run v' = (.ok (), v') := by
  refine FileAction.makeDirectoryAll_again (hmade.imp id fun hdir => ?_)
  obtain ⟨hway, hend⟩ := clear_of_isDirectory hdir hplain
  exact Volume.isDirectory_congr hdir (fun q hq => ha q (hway q hq)) fun t ht => ha _ (hend t ht)

/-! ## Moves among the places of a log -/

/-- A file of a log is renamed, or nothing happens. -/
theorem Rack.Led.rename (h : r.Led dir appName n v) (hplain : r.Plain n v) (hi : i ≤ n) (hj : j ≤ n)
    (hij : i ≠ j) :
    (∃ e, (FileAction.rename (filePath dir appName i) (filePath dir appName j)).run.run v =
        (.error e, v)) ∨
      ∃ v', (FileAction.rename (filePath dir appName i) (filePath dir appName j)).run.run v =
          (.ok (), v') ∧ r.Apart n v v' ∧ v'.contents = v.contents ∧
        ∀ k, v'.node? (r.place k) =
          if k = j then v.node? (r.place i) else if k = i then none else v.node? (r.place k) := by
  have hne : r.place i ≠ r.place j := mt Rack.place_injective hij
  refine (FileAction.rename_attempt (h.leads i) (h.leads j) hne (hplain i hi)).imp id fun hrun => ?_
  have hfree : (v.erase (r.place j)).node? (r.place j) = none := by
    rw [Rack.node?_erase_place, if_pos rfl]
  refine ⟨_, hrun, (Rack.apart_erase hj).trans (Rack.apart_moveNode hi hj), rfl, fun k => ?_⟩
  have hmoved : ((v.erase (r.place j)).moveNode (r.place i) (r.place j)).node? (r.place k) = _ :=
    Rack.node?_moveNode_place hij hfree k
  rw [hmoved, Rack.node?_erase_place, Rack.node?_erase_place, if_neg hij]
  split
  · rfl
  · rfl

theorem Rack.Plain.renamed (hplain : r.Plain n v) (hi : i ≤ n)
    (hnodes : ∀ k, v'.node? (r.place k) =
      if k = j then v.node? (r.place i) else if k = i then none else v.node? (r.place k)) :
    r.Plain n v' := by
  intro k hk
  rw [hnodes]
  split
  · exact hplain i hi
  split
  · exact (Option.some_ne_none _).symm
  · exact hplain k hk

/-- The files that a log has set aside were moved about or removed. The active file is where it was,
every file holds what it held, and nothing has happened elsewhere. -/
structure Rack.Stirred (r : Rack) (n : Nat) (v v' : Volume) : Prop where
  /-- Nothing has happened elsewhere. -/
  apart : r.Apart n v v'
  /-- All files hold what they held. -/
  contents : v'.contents = v.contents
  /-- The active file is where it was. -/
  active : v'.node? (r.place 0) = v.node? (r.place 0)
  /-- No directory has come to a place of the log. -/
  plain : r.Plain n v → r.Plain n v'

theorem Rack.Stirred.refl (r : Rack) (n : Nat) (v : Volume) : r.Stirred n v v :=
  ⟨.refl r n v, rfl, rfl, id⟩

theorem Rack.Stirred.trans {v'' : Volume} (h : r.Stirred n v v') (h' : r.Stirred n v' v'') :
    r.Stirred n v v'' :=
  ⟨h.apart.trans h'.apart, h'.contents.trans h.contents, h'.active.trans h.active,
    h'.plain ∘ h.plain⟩

/-- Whatever comes of dropping the oldest file, no other is touched. -/
theorem Rack.Led.drop (h : r.Led dir appName n v) (hi : i ≠ 0) (hn : i ≤ n) :
    r.Stirred n v ((if v.exists? (rotatedPath dir appName i) then
      FileAction.removeFile (rotatedPath dir appName i) else pure ()).run.run v).2 := by
  have hleads := h.leads i
  rw [filePath, if_neg hi] at hleads
  split
  · rcases FileAction.removeFile_attempt hleads with ⟨e, hrun⟩ | hrun <;> rw [hrun]
    · exact .refl r n v
    · refine ⟨Rack.apart_erase hn, rfl, ?_, fun hplain k hk => ?_⟩
      · rw [Rack.node?_erase_place, if_neg (Ne.symm hi)]
      · rw [Rack.node?_erase_place]
        split
        · exact (Option.some_ne_none _).symm
        · exact hplain k hk
  · exact .refl r n v

/-- However far the files come that go one number up, the active one stays. -/
theorem Rack.Led.shift {m : Nat} (h : r.Led dir appName n v) (hplain : r.Plain n v)
    (hm : m + 1 ≤ n) : r.Stirred n v ((RollingLog.shift dir appName m).run.run v).2 := by
  induction m generalizing v with
  | zero => exact .refl r n v
  | succ m ih =>
    rw [shift_succ]
    split
    · have hrename := h.rename hplain (i := m + 1) (j := m + 2) (by omega) hm (by omega)
      rw [filePath, filePath, if_neg (by omega), if_neg (by omega)] at hrename
      rcases hrename with ⟨e, hrun⟩ | ⟨v', hrun, hapart, hcontents, hnodes⟩
      · rw [FileAction.run_bind_error hrun]
        exact .refl r n v
      · have hactive : v'.node? (r.place 0) = v.node? (r.place 0) := by
          rw [hnodes, if_neg (by omega), if_neg (by omega)]
        have hmoved : r.Stirred n v v' :=
          ⟨hapart, hcontents, hactive, fun hplain => hplain.renamed (by omega) hnodes⟩
        rw [FileAction.run_bind_ok hrun]
        exact hmoved.trans (ih (h.of_apart hapart) (hmoved.plain hplain) (by omega))
    · exact ih h hplain (by omega)

end Rack

/-! ## A log that has its files to itself -/

/-- What a log knows can be told from its active file: it writes to the end of the file that its
path leads to, and counts the bytes that are in it. Making its directory again changes nothing,
whatever happens to its files. -/
structure Sole (s : Site) (r : Rack) (log : RollingLog) (v : Volume) : Prop where
  /-- The log is the one of the site. -/
  limits : log = ⟨s.dir, s.appName, s.maxBytes, s.maxFiles, log.file, log.written⟩
  /-- Its active file can be reached. -/
  led : r.Led s.dir s.appName s.maxFiles v
  /-- No directory is in the way of its files. -/
  plain : r.Plain s.maxFiles v
  /-- Its directory is there, and stays. -/
  made : ∀ v', r.Apart s.maxFiles v v' →
    (FileAction.makeDirectoryAll s.dir).run.run v' = (.ok (), v')
  /-- The file that is open is the active one. -/
  active : v.node? (r.place 0) = some (.file log.file.file)
  /-- It is there. -/
  there : log.file.file < v.contents.size
  /-- It is written at its end. -/
  atEnd : log.file.AtEnd v
  /-- Its length is known. -/
  written : log.written = (v.content log.file.file).size

/-- The log after an attempt: what came of it, or what it was before. -/
def RollingLog.left (log : RollingLog) : Except FileError RollingLog → RollingLog
  | .ok log' => log'
  | .error _ => log

section Sole

variable {s : Site} {r : Rack} {log log' : RollingLog} {v v' : Volume} {record : ByteArray}

/-- Where files were only set aside, the log can go on. -/
theorem Sole.of_stirred (h : Sole s r log v) (hv : r.Stirred s.maxFiles v v') :
    Sole s r log v' := by
  have hcontent : ∀ id, v'.content id = v.content id := by
    intro id
    unfold Volume.content
    rw [hv.contents]
  refine ⟨h.limits, h.led.of_apart hv.apart, hv.plain h.plain,
    fun v'' ha => h.made v'' (hv.apart.trans ha), hv.active.trans h.active, ?_, ?_, ?_⟩
  · rw [hv.contents]
    exact h.there
  · exact h.atEnd.imp id fun hoffset => by rw [hcontent, hoffset]
  · rw [hcontent, h.written]

/-- What is written at the end of a file comes behind what it holds. -/
theorem write_run {f : OpenFile} (hend : f.AtEnd v) (bytes : ByteArray) :
    ∃ f', (f.write bytes).run.run v = (.ok f', if bytes.isEmpty = true then v else
      v.setContent f.file (v.content f.file ++ bytes)) := by
  unfold OpenFile.write
  by_cases hempty : bytes.isEmpty = true
  · rw [if_pos hempty, if_pos hempty]
    exact ⟨f, rfl⟩
  · rw [if_neg hempty, if_neg hempty, FileAction.run_get_bind]
    by_cases happending : f.appending = true
    · rw [if_pos happending]
      exact ⟨f, rfl⟩
    · rw [if_neg happending, hend.resolve_left happending, OpenFile.overwrite_end]
      exact ⟨_, rfl⟩

/-- A record that fits is written. -/
theorem Sole.append (h : Sole s r log v) (record : ByteArray) :
    ∃ file v', (log.file.write record).run.run v = (.ok file, v') ∧
      Sole s r { log with file := file, written := log.written + record.size } v' := by
  obtain ⟨file, v', hrun, hfile, hend, hnodes, hsize, hcontent⟩ :=
    OpenFile.write_end h.atEnd h.there record
  have hsame : ∀ q, v'.node? q = v.node? q := by
    intro q
    unfold Volume.node?
    rw [hnodes]
  have hapart : r.Apart s.maxFiles v v' := fun q _ => hsame q
  refine ⟨file, v', hrun, ?_, h.led.of_apart hapart, fun i hi => ?_,
    fun v'' ha => h.made v'' (hapart.trans ha), ?_, ?_, hend, ?_⟩
  · rw [h.limits]
  · rw [hsame]
    exact h.plain i hi
  · rw [hsame, hfile]
    exact h.active
  · rw [hfile, hsize]
    exact h.there
  · show log.written + record.size = (v'.content file.file).size
    rw [hcontent, hfile, if_pos rfl, ByteArray.size_append, h.written]

/-- The active file is emptied. -/
theorem Sole.rotate_emptied (h : Sole s r log v) (hfiles : s.maxFiles = 0) :
    ∃ log' v', log.rotate.run.run v = (.ok log', v') ∧ Sole s r log' v' := by
  have hnone : log.maxFiles = 0 := by
    rw [h.limits]
    exact hfiles
  have hopen := FileAction.openOrCreate_file h.led.active h.active
  have hpath : log.path = activePath s.dir s.appName := by
    rw [h.limits]
    rfl
  have hcontent := Volume.content_setContent v ByteArray.empty h.there
  have hsame : ∀ q, (v.setContent log.file.file ByteArray.empty).node? q = v.node? q :=
    fun q => Rack.node?_contents v _ q
  have hapart : r.Apart s.maxFiles v (v.setContent log.file.file ByteArray.empty) :=
    fun q _ => hsame q
  refine ⟨⟨s.dir, s.appName, s.maxBytes, s.maxFiles, ⟨log.file.file, false, 0⟩, 0⟩,
    v.setContent log.file.file ByteArray.empty, ?_, rfl, h.led.of_apart hapart, fun i hi => ?_,
    fun v'' ha => h.made v'' (hapart.trans ha), ?_, ?_, Or.inr ?_, ?_⟩
  · unfold RollingLog.rotate OpenFile.create
    rw [if_pos hnone, bind_assoc, hpath, FileAction.run_bind_ok hopen, h.limits]
    rfl
  · rw [hsame]
    exact h.plain i hi
  · rw [hsame]
    exact h.active
  · show log.file.file < (v.setContent log.file.file ByteArray.empty).contents.size
    simpa [Volume.setContent] using h.there
  · show 0 = ((v.setContent log.file.file ByteArray.empty).content log.file.file).size
    rw [hcontent, if_pos rfl]
    rfl
  · show 0 = ((v.setContent log.file.file ByteArray.empty).content log.file.file).size
    rw [hcontent, if_pos rfl]
    rfl

/-- An empty file takes the place of an active one that was set aside. -/
theorem Rack.Led.append_free (h : r.Led s.dir s.appName s.maxFiles v)
    (hplain : r.Plain s.maxFiles v)
    (hmade : ∀ v', r.Apart s.maxFiles v v' →
      (FileAction.makeDirectoryAll s.dir).run.run v' = (.ok (), v'))
    (hfree : v.node? (r.place 0) = none) :
    ∃ v', (OpenFile.append (activePath s.dir s.appName)).run.run v =
        (.ok ⟨v.contents.size, true, 0⟩, v') ∧
      Sole s r ⟨s.dir, s.appName, s.maxBytes, s.maxFiles, ⟨v.contents.size, true, 0⟩, 0⟩ v' := by
  have hnodes : ∀ k, Volume.node? { v.insert (r.place 0) (.file v.contents.size) with
      contents := v.contents.push ByteArray.empty } (r.place k) =
        if k = 0 then some (.file v.contents.size) else v.node? (r.place k) := by
    intro k
    have hinsert : (v.insert (r.place 0) (.file v.contents.size)).node? (r.place k) = _ :=
      Rack.node?_insert_place hfree k
    rw [← hinsert]
    exact Rack.node?_contents _ _ _
  have hapart : r.Apart s.maxFiles v { v.insert (r.place 0) (.file v.contents.size) with
      contents := v.contents.push ByteArray.empty } :=
    (Rack.apart_insert (Nat.zero_le _) hfree).trans (Rack.apart_contents _)
  refine ⟨_, FileAction.run_bind_ok (FileAction.openOrCreate_free h.active hfree), rfl,
    h.of_apart hapart, fun i hi => ?_, fun v'' ha => hmade v'' (hapart.trans ha), ?_, ?_,
    Or.inl rfl, ?_⟩
  · rw [hnodes]
    split
    · simp
    · exact hplain i hi
  · rw [hnodes, if_pos rfl]
  · simp
  · show 0 = _
    rw [Volume.content_push_new rfl]
    rfl

/-- Whatever comes of a rotation, the log can go on. -/
theorem Sole.rotate (h : Sole s r log v) :
    Sole s r (log.left (log.rotate.run.run v).1) (log.rotate.run.run v).2 := by
  cases hfiles : s.maxFiles with
  | zero =>
    obtain ⟨log', v', hrun, hsole⟩ := h.rotate_emptied hfiles
    rw [hrun]
    exact hsole
  | succ m =>
    have hkept : log.maxFiles = m + 1 := by
      rw [h.limits]
      exact hfiles
    have hdir : log.dir = s.dir := by rw [h.limits]
    have happName : log.appName = s.appName := by rw [h.limits]
    have hpath : log.path = activePath s.dir s.appName := by
      rw [h.limits]
      rfl
    rw [rotate_eq hkept, hdir, happName, hpath]
    have hdrop := h.led.drop (i := m + 1) (by omega) (by omega)
    rcases hrun : (if v.exists? (rotatedPath s.dir s.appName (m + 1)) then
      FileAction.removeFile (rotatedPath s.dir s.appName (m + 1)) else pure ()).run.run v with
      ⟨e | _, v1⟩ <;> rw [hrun] at hdrop
    · rw [FileAction.run_bind_error hrun]
      exact h.of_stirred hdrop
    have h1 := h.of_stirred hdrop
    rw [FileAction.run_bind_ok hrun]
    have hshift := h1.led.shift h1.plain (m := m) (by omega)
    rcases hrun : (RollingLog.shift s.dir s.appName m).run.run v1 with ⟨e | _, v2⟩ <;>
      rw [hrun] at hshift
    · rw [FileAction.run_bind_error hrun]
      exact h1.of_stirred hshift
    have h2 := h1.of_stirred hshift
    rw [FileAction.run_bind_ok hrun]
    have hrename := h2.led.rename h2.plain (i := 0) (j := 1) (by omega) (by omega) (by omega)
    rw [filePath, filePath, if_pos rfl, if_neg Nat.one_ne_zero] at hrename
    rcases hrename with ⟨e, hrun⟩ | ⟨v3, hrun, hapart, hcontents, hnodes⟩
    · rw [FileAction.run_bind_error hrun]
      exact h2
    · have hplain : r.Plain s.maxFiles v3 := h2.plain.renamed (Nat.zero_le _) hnodes
      have hfree : v3.node? (r.place 0) = none := by
        rw [hnodes, if_neg (by omega), if_pos rfl]
      obtain ⟨v4, happend, hsole⟩ := (h2.led.of_apart hapart).append_free hplain
        (fun v' ha => h2.made v' (hapart.trans ha)) hfree
      rw [FileAction.run_bind_ok hrun, FileAction.run_bind_ok happend, h.limits]
      exact hsole

/-- Whatever comes of a write, the log can go on. -/
theorem Sole.write (h : Sole s r log v) (record : ByteArray) :
    Sole s r (log.left ((log.write record).run.run v).1) ((log.write record).run.run v).2 := by
  by_cases hfull : log.overflows record.size = true
  · have hrotate := h.rotate
    rw [write_overflows hfull]
    rcases hrun : log.rotate.run.run v with ⟨e | log', v1⟩ <;> rw [hrun] at hrotate
    · rw [FileAction.run_bind_error hrun]
      exact hrotate
    · obtain ⟨file, v2, hwrite, hsole⟩ := hrotate.append record
      rw [RollingLog.left] at hwrite hsole
      rw [FileAction.run_bind_ok hrun, FileAction.run_bind_ok hwrite]
      exact hsole
  · obtain ⟨file, v1, hwrite, hsole⟩ := h.append record
    rw [write_fits (Bool.eq_false_iff.mpr hfull), FileAction.run_bind_ok hwrite]
    exact hsole

/-- Two logs that go by the same active file know the same of it. -/
theorem Sole.same (h : Sole s r log v) (h' : Sole s r log' v) :
    log'.file.file = log.file.file ∧ log'.written = log.written := by
  have hnode := h'.active.symm.trans h.active
  have hfile : log'.file.file = log.file.file := Node.file.inj (Option.some.inj hnode)
  refine ⟨hfile, ?_⟩
  rw [h'.written, h.written, hfile]

/-- Two logs that go by the same active file write the same. -/
theorem Sole.write_same (h : Sole s r log v) (h' : Sole s r log' v) (record : ByteArray) :
    ((log.write record).run.run v).2 = ((log'.write record).run.run v).2 := by
  obtain ⟨hfile, hwritten⟩ := h.same h'
  have hoverflows : log'.overflows record.size = log.overflows record.size := by
    rw [h.limits, h'.limits]
    unfold RollingLog.overflows
    rw [hwritten]
  by_cases hfull : log.overflows record.size = true
  · have hrotate : log.rotate = log'.rotate := by
      rw [h.limits, h'.limits]
      rfl
    rw [write_overflows hfull, write_overflows (hoverflows.trans hfull), hrotate]
  · have hfits := Bool.eq_false_iff.mpr hfull
    obtain ⟨file, hrun⟩ := write_run h.atEnd record
    obtain ⟨file', hrun'⟩ := write_run h'.atEnd record
    rw [write_fits hfits, write_fits (hoverflows.trans hfits), FileAction.run_bind_ok hrun,
      FileAction.run_bind_ok hrun', hfile]
    rfl

/-- Opening the log again changes nothing, and what it knew is known again. -/
theorem Sole.reopen (h : Sole s r log v) :
    ∃ log', (RollingLog.start s.dir s.appName s.maxBytes s.maxFiles).run.run v = (.ok log', v) ∧
      Sole s r log' v := by
  have hdir := h.made v (.refl r s.maxFiles v)
  have hopen : (OpenFile.append (activePath s.dir s.appName)).run.run v =
      (.ok ⟨log.file.file, true, 0⟩, v) :=
    FileAction.run_bind_ok (FileAction.openOrCreate_file h.led.active h.active)
  refine ⟨⟨s.dir, s.appName, s.maxBytes, s.maxFiles, ⟨log.file.file, true, 0⟩,
    (v.content log.file.file).size⟩, ?_, rfl, h.led, h.plain, h.made, h.active, h.there,
    Or.inl rfl, rfl⟩
  unfold RollingLog.start
  rw [FileAction.run_bind_ok hdir, FileAction.run_bind_ok hopen]
  rfl

end Sole

/-! ## Opening a log -/

/-- In the directory of the log, none of its names is that of a directory. -/
def Site.Plain (s : Site) (v : Volume) : Prop :=
  ∀ r : Rack, v.locate (activePath s.dir s.appName) = .ok ⟨r.place 0, false⟩ →
    r.Plain s.maxFiles v

/-- Where all names can be followed, it is enough to ask for each path. -/
theorem Site.plain_of_files {s : Site} {v : Volume}
    (hnames : ∀ i ≤ s.maxFiles, (v.locate (filePath s.dir s.appName i)).isOk = true)
    (hfiles : ∀ i ≤ s.maxFiles, v.isDirectory (filePath s.dir s.appName i) = false) :
    s.Plain v := by
  intro r hactive i hi hnode
  have hname := hnames i hi
  cases ht : v.locate (filePath s.dir s.appName i) with
  | error e =>
    rw [ht] at hname
    cases hname
  | ok t =>
    have hplace : t = ⟨r.place i, false⟩ := leads_of_active hactive _ i t ht
    have hdir : v.isDirectory (filePath s.dir s.appName i) = true :=
      Volume.isDirectory_iff.mpr ⟨t, ht, by rw [hplace]; exact hnode⟩
    rw [hfiles i hi] at hdir
    cases hdir

/-- A log that was opened knows what can be told from its active file. -/
theorem exists_sole {s : Site} {v v' : Volume} {log : RollingLog} (hv : v.Backed)
    (hopened : (RollingLog.start s.dir s.appName s.maxBytes s.maxFiles).run.run v = (.ok log, v'))
    (hplain : s.Plain v') : ∃ r, Sole s r log v' := by
  obtain ⟨_, v1, hdir, hopened⟩ := FileAction.run_bind_eq_ok.mp hopened
  obtain ⟨file, v2, happend, hopened⟩ := FileAction.run_bind_eq_ok.mp hopened
  cases hopened
  obtain ⟨id, v3, hopen, hpure⟩ := FileAction.run_bind_eq_ok.mp happend
  cases hpure
  have hv1 : v1.Backed := ((FileAction.makeDirectoryAll_spares _).of_run hdir).backed hv
  obtain ⟨t, hlocate, hnode, hkept⟩ := FileAction.openOrCreate_made hopen
  obtain ⟨r, rfl⟩ := exists_rack hlocate
  have hplaces : r.Plain s.maxFiles v' := hplain r hlocate
  have hmade : (Path.ofText s.dir).steps = [] ∨ v'.isDirectory s.dir = true :=
    (FileAction.makeDirectoryAll_made hdir).imp_right fun h =>
      Volume.isDirectory_grown h fun q hq => hkept q _ hq
  refine ⟨r, rfl, led_of_active hlocate hplaces, hplaces,
    fun v'' ha => makeDirectoryAll_again_of_apart hmade hplaces ha, hnode,
    FileAction.openOrCreate_lt hv1 hopen, Or.inl rfl, rfl⟩

/-! ## Runs with restarts -/

/-- What happens to a log: a record is written through its handle, or the handle is dropped and the
log is opened again. -/
inductive Event where
  /-- A record is written. -/
  | write (record : ByteArray)
  /-- The log is dropped and opened again. -/
  | restart

/-- What is done through a handle when something happens to its log. -/
def Event.visits (name : String) : Event → List Visit
  | .write record => [.turn (.write name record)]
  | .restart => [.turn (.close name), .start name]

/-- Is a record written? -/
def Event.isWrite : Event → Bool
  | .write _ => true
  | .restart => false

/-- The desk when something has happened to the log behind a handle, and nothing else has. -/
def Site.after (s : Site) (d : Desk) (name : String) (events : List Event) : Desk :=
  (s.run d (events.flatMap (Event.visits name))).2

/-- The log behind a handle has its files to itself. -/
def Desk.Alone (d : Desk) (s : Site) (r : Rack) (name : String) : Prop :=
  ∃ log, d.writers.log? name = some log ∧ Sole s r log d.volume

section Run

variable {s : Site} {r : Rack} {d d' : Desk} {name : String} {log : RollingLog}

theorem Site.run_append (s : Site) (d : Desk) (visits visits' : List Visit) :
    (s.run d (visits ++ visits')).2 = (s.run (s.run d visits).2 visits').2 := by
  induction visits generalizing d with
  | nil => rfl
  | cons visit visits ih => exact ih (s.visit d visit)

theorem Site.after_cons (s : Site) (d : Desk) (name : String) (event : Event)
    (events : List Event) :
    s.after d name (event :: events) = s.after (s.after d name [event]) name events := by
  unfold Site.after
  rw [List.flatMap_cons, Site.run_append, List.flatMap_singleton]

theorem Site.after_write (hlog : d.writers.log? name = some log) (record : ByteArray) :
    (s.after d name [.write record]).volume = ((log.write record).run.run d.volume).2 ∧
      (s.after d name [.write record]).writers.log? name =
        some (log.left ((log.write record).run.run d.volume).1) := by
  have hvisit : s.after d name [.write record] = s.visit d (.turn (.write name record)) := rfl
  obtain ⟨i, hindex, hfound⟩ := Option.bind_eq_some_iff.mp hlog
  have hupdate : d.writers.write name record = log.write record >>= fun log' =>
      pure { d.writers with logs := d.writers.logs.setIfInBounds i log' } := by
    unfold Writers.write Writers.update
    rw [hindex, hlog]
  rw [hvisit]
  unfold Site.visit Site.act Writers.turn
  dsimp only
  rw [hupdate]
  rcases hrun : (log.write record).run.run d.volume with ⟨e | log', v⟩
  · rw [FileAction.run_bind_error hrun]
    exact ⟨rfl, hlog⟩
  · rw [FileAction.run_bind_ok hrun]
    refine ⟨rfl, ?_⟩
    have hi : i < d.writers.logs.size := (Array.getElem?_eq_some_iff.mp hfound).1
    show ((d.writers.index? name).bind fun j =>
      (d.writers.logs.setIfInBounds i log')[j]?) = some log'
    rw [hindex]
    simp [hi]

theorem Site.visit_start {v : Volume} (name : String)
    (hrun : (RollingLog.start s.dir s.appName s.maxBytes s.maxFiles).run.run d.volume =
      (.ok log, v)) :
    (s.visit d (.start name)).volume = v ∧
      (s.visit d (.start name)).writers.log? name = some log := by
  unfold Site.visit Site.act Writers.start
  dsimp only
  rw [FileAction.run_bind_ok hrun]
  refine ⟨rfl, ?_⟩
  show ((Writers.point { d.writers with logs := d.writers.logs.push log } name
    d.writers.logs.size).index? name).bind (fun j => (d.writers.logs.push log)[j]?) = some log
  rw [Writers.index?_point, if_pos rfl]
  simp

theorem Desk.Alone.restart (h : d.Alone s r name) :
    (s.after d name [.restart]).volume = d.volume ∧ (s.after d name [.restart]).Alone s r name := by
  obtain ⟨log, -, hsole⟩ := h
  obtain ⟨log', hrun, hsole'⟩ := hsole.reopen
  have hstart : (RollingLog.start s.dir s.appName s.maxBytes s.maxFiles).run.run
      (s.visit d (.turn (.close name))).volume = (.ok log', d.volume) := hrun
  obtain ⟨hvolume, hlog⟩ := Site.visit_start name hstart
  refine ⟨hvolume, log', hlog, ?_⟩
  rw [show (s.after d name [.restart]).volume = d.volume from hvolume]
  exact hsole'

theorem Desk.Alone.write (h : d.Alone s r name) (record : ByteArray) :
    (s.after d name [.write record]).Alone s r name := by
  obtain ⟨log, hlog, hsole⟩ := h
  obtain ⟨hvolume, hlog'⟩ := Site.after_write (s := s) hlog record
  refine ⟨_, hlog', ?_⟩
  rw [hvolume]
  exact hsole.write record

theorem Desk.Alone.write_same (h : d.Alone s r name) (h' : d'.Alone s r name)
    (hv : d.volume = d'.volume) (record : ByteArray) :
    (s.after d name [.write record]).volume = (s.after d' name [.write record]).volume := by
  obtain ⟨log, hlog, hsole⟩ := h
  obtain ⟨log', hlog', hsole'⟩ := h'
  rw [(Site.after_write hlog record).1, (Site.after_write hlog' record).1, hv]
  rw [hv] at hsole
  exact hsole.write_same hsole' record

/-- Two desks with the same files stay so, when a log is restarted at one of them and not at the
other. -/
theorem Desk.Alone.after_same (h : d.Alone s r name) (h' : d'.Alone s r name)
    (hv : d.volume = d'.volume) (events : List Event) :
    (s.after d name events).Alone s r name ∧
      (s.after d name events).volume =
        (s.after d' name (events.filter Event.isWrite)).volume := by
  induction events generalizing d d' with
  | nil => exact ⟨h, hv⟩
  | cons event events ih =>
    rw [Site.after_cons]
    cases event with
    | write record =>
      have hfilter : (Event.write record :: events).filter Event.isWrite =
          .write record :: events.filter Event.isWrite := rfl
      rw [hfilter, Site.after_cons s d']
      exact ih (h.write record) (h'.write record) (h.write_same h' hv record)
    | restart =>
      have hfilter : (Event.restart :: events).filter Event.isWrite =
          events.filter Event.isWrite := rfl
      obtain ⟨hvolume, halone⟩ := h.restart
      rw [hfilter]
      exact ih halone h' (hvolume.trans hv)

end Run

/-- Restarting a log leaves no trace. However often its handle is dropped and the log is opened
again between the records, the volume at the end is the same as with one handle, down to the names
and contents of all files; and the log counts the bytes that are in its active file. -/
theorem restarts_leave_no_trace {s : Site} {v v' : Volume} {log : RollingLog} (hv : v.Backed)
    (hopened : (RollingLog.start s.dir s.appName s.maxBytes s.maxFiles).run.run v = (.ok log, v'))
    (hplain : s.Plain v') (name : String) (events : List Event) :
    let opened := s.visit { volume := v } (.start name)
    let last := s.after opened name events
    last.volume = (s.after opened name (events.filter Event.isWrite)).volume ∧
      ∃ log bytes, last.writers.log? name = some log ∧
        (FileAction.readAll (activePath s.dir s.appName)).run.run last.volume =
          (.ok bytes, last.volume) ∧
        log.written = bytes.size := by
  intro opened last
  obtain ⟨r, hsole⟩ := exists_sole hv hopened hplain
  obtain ⟨hvolume, hlog⟩ :=
    Site.visit_start (d := { volume := v }) name hopened
  have halone : opened.Alone s r name := ⟨log, hlog, hvolume ▸ hsole⟩
  obtain ⟨⟨log', hlog', hsole'⟩, hsame⟩ := halone.after_same halone rfl events
  refine ⟨hsame, log', _, hlog', ?_, hsole'.written⟩
  exact FileAction.readAll_file hsole'.led.active hsole'.active

/-- A log is restarted before and after its file is set aside; the place of the youngest file is
free at first. -/
theorem restarts_leave_no_trace_in_gap :
    let s : Site := ⟨"logs", "App", 4, 2⟩
    let v : Volume := ⟨[(["tmp"], .directory), (home, .directory), (home ++ ["logs"], .directory),
      (home ++ ["logs", "App.log.2"], .file 0)], #["old".toUTF8]⟩
    let opened := s.visit { volume := v } (.start "a")
    let restarted := s.after opened "a" [.write "aaa".toUTF8, .restart, .write "bb".toUTF8,
      .restart, .write "c".toUTF8, .write "".toUTF8, .restart, .write "dd".toUTF8]
    restarted.volume = (s.after opened "a" [.write "aaa".toUTF8, .write "bb".toUTF8,
        .write "c".toUTF8, .write "".toUTF8, .write "dd".toUTF8]).volume ∧
      ((FileAction.readAll (activePath s.dir s.appName)).run.run restarted.volume).1.toOption =
        some "dd".toUTF8 := by
  intro s v opened restarted
  have hv : v.Backed := by
    intro n hn id hid
    simp only [v, List.mem_cons, List.not_mem_nil, or_false] at hn
    rcases hn with rfl | rfl | rfl | rfl <;> cases hid
    decide
  let start := (RollingLog.start s.dir s.appName s.maxBytes s.maxFiles).run.run v
  have hok : start.1.isOk = true := by decide +kernel
  have hnames : ∀ i ≤ s.maxFiles, (start.2.locate (filePath s.dir s.appName i)).isOk = true := by
    decide +kernel
  have hfiles : ∀ i ≤ s.maxFiles, start.2.isDirectory (filePath s.dir s.appName i) = false := by
    decide +kernel
  have hlast : ((FileAction.readAll (activePath s.dir s.appName)).run.run
      restarted.volume).1.toOption = some "dd".toUTF8 := by
    decide +kernel
  rcases hopened : start with ⟨e | log, v'⟩
  · rw [hopened] at hok
    cases hok
  rw [hopened] at hnames hfiles
  have hsame := restarts_leave_no_trace hv hopened (Site.plain_of_files hnames hfiles) "a"
    [.write "aaa".toUTF8, .restart, .write "bb".toUTF8, .restart, .write "c".toUTF8,
      .write "".toUTF8, .restart, .write "dd".toUTF8]
  exact ⟨hsame.1, hlast⟩

end Pinboard.Log
