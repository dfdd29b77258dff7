import Mathlib.Data.List.Infix
import Pinboard.Proofs.Contents
import Pinboard.Proofs.Segments

/-!
# Logs that share their files

Several logs can be open at one place with the same limits. Each counts its own bytes and has its
own open file, which another log may have renamed, removed or emptied in the meantime. A file that
is open for appending is safe: whatever has happened to it, the next record comes behind what it
holds. A file that a log has emptied is open at an offset, and that is the end of the file only as
long as no other log has written to it.
-/

namespace Pinboard.Files

namespace FileAction

variable {act : FileAction α} {v v' : Volume}

theorem Spares.of_run {r : Except FileError α} (h : act.Spares) (hrun : act.run.run v = (r, v')) :
    v.Rearranged v' := by
  have hall := h v
  rw [hrun] at hall
  exact hall

end FileAction

namespace OpenFile

theorem write_appending {f f' : OpenFile} {bytes : ByteArray} {v v' : Volume}
    (h : (f.write bytes).run.run v = (.ok f', v')) : f'.appending = f.appending := by
  unfold write at h
  split at h
  · cases h
    rfl
  · rw [FileAction.run_get_bind] at h
    split at h <;> (cases h; rfl)

end OpenFile

end Pinboard.Files

namespace Pinboard.Log

open Files

variable {v v' v'' : Volume} {log log' : RollingLog} {record : ByteArray}

/-! ## What a write does to the files -/

/-- Bytes have come behind what a file held, and the other files hold the same. -/
structure Appended (file : FileId) (held bytes : ByteArray) (v v' : Volume) : Prop where
  /-- No file is lost. -/
  size : v.contents.size ≤ v'.contents.size
  /-- Names stand for files that there are, if they did before. -/
  backed : v.Backed → v'.Backed
  /-- What each file holds. -/
  content : ∀ id, v'.content id = if id = file then held ++ bytes else v.content id

theorem Appended.of_rearranged (h : v.Rearranged v') (file : FileId) :
    Appended file (v.content file) ByteArray.empty v v' := by
  refine ⟨h.size, h.backed, fun id => ?_⟩
  rw [h.content, ByteArray.append_empty]
  split
  · rename_i hid
    rw [hid]
  · rfl

theorem Appended.trans {file : FileId} {held bytes bytes' : ByteArray}
    (h : Appended file held bytes v v')
    (h' : Appended file (v'.content file) bytes' v' v'') :
    Appended file held (bytes ++ bytes') v v'' := by
  refine ⟨Nat.le_trans h.size h'.size, h'.backed ∘ h.backed, fun id => ?_⟩
  rw [h'.content, h.content file, if_pos rfl, h.content id, ByteArray.append_assoc]
  split <;> rfl

/-- A file is written at its end. -/
theorem Appended.of_write {f : OpenFile} (hend : f.AtEnd v) (hf : f.file < v.contents.size)
    (bytes : ByteArray) :
    ∃ f' v', (f.write bytes).run.run v = (.ok f', v') ∧ f'.file = f.file ∧ f'.AtEnd v' ∧
      Appended f.file (v.content f.file) bytes v v' := by
  obtain ⟨f', v', hrun, hfile, hend', hnodes, hsize, hcontent⟩ := OpenFile.write_end hend hf bytes
  refine ⟨f', v', hrun, hfile, hend', Nat.le_of_eq hsize.symm, fun hv n hn id hid => ?_,
    fun id => ?_⟩
  · rw [hnodes] at hn
    rw [hsize]
    exact hv n hn id hid
  · rw [hcontent]
    split
    · rename_i hid
      rw [hid]
    · rfl

namespace RollingLog

theorem shift_spares (dir appName : String) (n : Nat) : (shift dir appName n).Spares := by
  induction n with
  | zero => exact .pure ()
  | succ n ih =>
    refine .get_bind fun v => ?_
    split
    · exact (FileAction.rename_spares _ _).bind fun _ => ih
    · exact ih

theorem drop_spares (path : String) (v : Volume) :
    FileAction.Spares (if v.exists? path = true then FileAction.removeFile path else pure ()) := by
  split
  · exact FileAction.removeFile_spares path
  · exact .pure ()

theorem append_spares (path : String) : (OpenFile.append path).Spares :=
  (FileAction.openOrCreate_spares path).bind fun _ => .pure _

theorem append_ok {path : String} {f : OpenFile} (hv : v.Backed)
    (h : (OpenFile.append path).run.run v = (.ok f, v')) :
    f.appending = true ∧ f.file < v'.contents.size := by
  obtain ⟨id, v1, hopen, hpure⟩ := FileAction.run_bind_eq_ok.mp h
  cases hpure
  exact ⟨rfl, FileAction.openOrCreate_lt hv hopen⟩

theorem start_spares (dir appName : String) (maxBytes maxFiles : Nat) :
    (start dir appName maxBytes maxFiles).Spares :=
  (FileAction.makeDirectoryAll_spares _).bind fun _ =>
    (append_spares _).bind fun _ => .get_bind fun _ => .pure _

/-- A log that was opened appends to a file that is there. -/
theorem start_ok {dir appName : String} {maxBytes maxFiles : Nat}
    (h : (start dir appName maxBytes maxFiles).run.run v = (.ok log, v')) :
    log.path = activePath dir appName ∧ log.maxFiles = maxFiles ∧ log.file.appending = true ∧
      (v.Backed → log.file.file < v'.contents.size) := by
  obtain ⟨_, v1, hmake, h⟩ := FileAction.run_bind_eq_ok.mp h
  obtain ⟨file, v2, happend, h⟩ := FileAction.run_bind_eq_ok.mp h
  cases h
  obtain ⟨id, v3, hopen, hfile⟩ := FileAction.run_bind_eq_ok.mp happend
  cases hfile
  have hmade := (FileAction.makeDirectoryAll_spares _).of_run hmake
  exact ⟨rfl, rfl, rfl, fun hv => FileAction.openOrCreate_lt (hmade.backed hv) hopen⟩

/-- What a rotation has done that had files to keep, however far it came: names have changed. -/
theorem rotate_spares {m : Nat} (hfiles : log.maxFiles = m + 1) : log.rotate.Spares := by
  intro v
  have hopen : FileAction.Spares (OpenFile.append log.path >>= fun file =>
      pure { log with file := file, written := 0 }) := (append_spares _).bind fun _ => .pure _
  rw [rotate_eq hfiles]
  exact ((drop_spares _ v).bind fun _ => (shift_spares _ _ m).bind fun _ =>
    (FileAction.rename_spares _ _).bind fun _ => hopen) v

/-- A log can write on: its file is there, and the next record goes to the end. -/
structure Ready (log : RollingLog) (v : Volume) : Prop where
  /-- The file is there. -/
  there : log.file.file < v.contents.size
  /-- It is written at its end. -/
  atEnd : log.file.AtEnd v

/-- With files to keep, the log then appends to the file that it finds or makes. -/
theorem rotate_kept {m : Nat} (hfiles : log.maxFiles = m + 1) (hv : v.Backed)
    (h : log.rotate.run.run v = (.ok log', v')) :
    log'.maxFiles = log.maxFiles ∧ log'.file.appending = true ∧
      log'.file.file < v'.contents.size := by
  rw [rotate_eq hfiles] at h
  obtain ⟨_, v1, hdrop, h⟩ := FileAction.run_bind_eq_ok.mp h
  obtain ⟨_, v2, hshift, h⟩ := FileAction.run_bind_eq_ok.mp h
  obtain ⟨_, v3, hrename, h⟩ := FileAction.run_bind_eq_ok.mp h
  obtain ⟨f, v4, happend, hpure⟩ := FileAction.run_bind_eq_ok.mp h
  cases hpure
  have hv1 := ((drop_spares _ v).of_run hdrop).backed hv
  have hv2 := ((shift_spares _ _ m).of_run hshift).backed hv1
  have hv3 := ((FileAction.rename_spares _ _).of_run hrename).backed hv2
  exact ⟨rfl, append_ok hv3 happend⟩

/-- Without files to keep, the active file is emptied, and the log goes on at its beginning. -/
theorem rotate_emptied (hfiles : log.maxFiles = 0) (hv : v.Backed)
    (h : log.rotate.run.run v = (.ok log', v')) :
    log'.maxFiles = log.maxFiles ∧ log'.Ready v' ∧
      Appended log'.file.file ByteArray.empty ByteArray.empty v v' := by
  unfold rotate OpenFile.create at h
  rw [if_pos hfiles, bind_assoc] at h
  obtain ⟨id, v1, hopen, h⟩ := FileAction.run_bind_eq_ok.mp h
  cases h
  have hmade := (FileAction.openOrCreate_spares _).of_run hopen
  have hid := FileAction.openOrCreate_lt hv hopen
  have hcontent := Volume.content_setContent v1 ByteArray.empty hid
  have hsize : (v1.setContent id ByteArray.empty).contents.size = v1.contents.size := by
    simp [Volume.setContent]
  refine ⟨rfl, ⟨?_, Or.inr ?_⟩, ?_, fun hv n hn id' hid' => ?_, fun id' => ?_⟩
  · rw [hsize]
    exact hid
  · show 0 = ((v1.setContent id ByteArray.empty).content id).size
    rw [hcontent, if_pos rfl]
    rfl
  · rw [hsize]
    exact hmade.size
  · rw [hsize]
    exact hmade.backed hv n hn id' hid'
  · rw [hcontent, hmade.content, ByteArray.append_empty]

/-- A record that does not fit makes the log empty the active file, if there is no place for it. -/
def clears (log : RollingLog) (record : ByteArray) : Bool :=
  log.maxFiles == 0 && log.overflows record.size

/-- A write that fails changes no contents. -/
theorem rearranged_of_write_error {e : FileError}
    (h : (log.write record).run.run v = (.error e, v')) : v.Rearranged v' := by
  obtain ⟨-, hrotate⟩ := rotate_error_of_write h
  cases hfiles : log.maxFiles with
  | zero =>
    unfold rotate OpenFile.create at hrotate
    rw [if_pos hfiles, bind_assoc, FileAction.run_bind] at hrotate
    rcases hopen : (FileAction.openOrCreate log.path).run.run v with ⟨e' | id, v1⟩ <;>
      rw [hopen] at hrotate <;> cases hrotate
    exact (FileAction.openOrCreate_spares _).of_run hopen
  | succ m => exact (rotate_spares hfiles).of_run hrotate

/-- A record that fits goes behind what the file holds. -/
theorem write_fitting (hfits : log.overflows record.size = false) (hlog : log.Ready v)
    (h : (log.write record).run.run v = (.ok log', v')) :
    log'.maxFiles = log.maxFiles ∧ log'.Ready v' ∧ log'.file.appending = log.file.appending ∧
      Appended log'.file.file (v.content log'.file.file) record v v' := by
  obtain ⟨f, v1, hwrite, hfile, hend, happended⟩ := Appended.of_write hlog.atEnd hlog.there record
  rw [write_fits hfits, FileAction.run_bind_ok hwrite] at h
  cases h
  rw [← hfile] at happended
  refine ⟨rfl, ⟨?_, hend⟩, OpenFile.write_appending hwrite, happended⟩
  exact Nat.lt_of_lt_of_le (hfile.symm ▸ hlog.there) happended.size

/-- A record that does not fit goes behind what the next file holds, or into the emptied one. -/
theorem write_overflowing (hfull : log.overflows record.size = true) (hv : v.Backed)
    (h : (log.write record).run.run v = (.ok log', v')) :
    log'.maxFiles = log.maxFiles ∧ log'.Ready v' ∧
      (log.maxFiles ≠ 0 → log'.file.appending = true) ∧
      Appended log'.file.file
        (if log.maxFiles = 0 then ByteArray.empty else v.content log'.file.file) record v v' := by
  rw [write_overflows hfull] at h
  obtain ⟨log1, v1, hrotate, h⟩ := FileAction.run_bind_eq_ok.mp h
  have hrotated : log1.maxFiles = log.maxFiles ∧ log1.Ready v1 ∧
      (log.maxFiles ≠ 0 → log1.file.appending = true) ∧
      Appended log1.file.file
        (if log.maxFiles = 0 then ByteArray.empty else v.content log1.file.file)
        ByteArray.empty v v1 := by
    cases hfiles : log.maxFiles with
    | zero =>
      obtain ⟨hmax, hready, happended⟩ := rotate_emptied hfiles hv hrotate
      exact ⟨hmax.trans hfiles, hready, fun h => absurd rfl h, happended⟩
    | succ m =>
      obtain ⟨hmax, happending, hthere⟩ := rotate_kept hfiles hv hrotate
      have hsame := (rotate_spares hfiles).of_run hrotate
      exact ⟨hmax.trans hfiles, ⟨hthere, Or.inl happending⟩, fun _ => happending,
        .of_rearranged hsame _⟩
  obtain ⟨hmax, hready, happending, hemptied⟩ := hrotated
  obtain ⟨f, v2, hwrite, hfile, hend, happended⟩ :=
    Appended.of_write hready.atEnd hready.there record
  have hall := hemptied.trans happended
  rw [ByteArray.empty_append] at hall
  rw [FileAction.run_bind_ok hwrite] at h
  cases h
  rw [← hfile] at hall
  refine ⟨hmax, ⟨?_, hend⟩, fun hne => ?_, hall⟩
  · exact Nat.lt_of_lt_of_le (hfile.symm ▸ hready.there) happended.size
  · exact (OpenFile.write_appending hwrite).trans (happending hne)

end RollingLog

/-! ## Visits to one place -/

/-- Where logs are opened, and with what limits. -/
structure Site where
  /-- The directory of the files. -/
  dir : String
  /-- The name that the files begin with. -/
  appName : String
  /-- The bytes that a file may hold when it has more than one record. -/
  maxBytes : Nat
  /-- The number of files that are kept beside the active one. -/
  maxFiles : Nat

/-- What is done at a site. -/
inductive Visit where
  /-- A log of its own is opened behind a handle. -/
  | start (name : String)
  /-- A turn is taken with the handles that there are. -/
  | turn (turn : Turn)

/-- The handles and the volume. -/
structure Desk where
  /-- The logs and the handles that lead to them. -/
  writers : Writers := {}
  /-- The files. -/
  volume : Volume

/-- A record that was written. -/
structure Entry where
  /-- The number of the log. -/
  log : Nat
  /-- The log has emptied the file for it. -/
  cleared : Bool
  /-- The file that it went to. -/
  file : FileId
  /-- What was written. -/
  record : ByteArray

namespace Site

/-- Acts on a visit. -/
def act (s : Site) (w : Writers) : Visit → FileAction Writers
  | .start name => w.start name s.dir s.appName s.maxBytes s.maxFiles
  | .turn turn => w.turn turn

/-- Pays a visit. One that fails leaves the handles as they were. -/
def visit (s : Site) (d : Desk) (visit : Visit) : Desk :=
  match (s.act d.writers visit).run.run d.volume with
  | (.ok w, v) => ⟨w, v⟩
  | (.error _, v) => ⟨d.writers, v⟩

end Site

/-- What is written on a visit, if it is a write that succeeds. -/
def Desk.entry? (d : Desk) : Visit → Option Entry
  | .turn (.write name record) =>
    match d.writers.index? name, d.writers.log? name with
    | some index, some log =>
      match (log.write record).run.run d.volume with
      | (.ok log', _) => some ⟨index, log.clears record, log'.file.file, record⟩
      | (.error _, _) => none
    | _, _ => none
  | _ => none

/-- Pays visit after visit. -/
def Site.run (s : Site) : Desk → List Visit → List Entry × Desk
  | d, [] => ([], d)
  | d, visit :: rest =>
    let (entries, last) := s.run (s.visit d visit) rest
    ((d.entry? visit).toList ++ entries, last)

/-- The records that went to a file. -/
def recordsOf (id : FileId) (entries : List Entry) : List ByteArray :=
  (entries.filter (·.file == id)).map (·.record)

/-- A log does not write on: the next record that it writes goes into a file that it empties. -/
def silent (log : Nat) : List Entry → Bool
  | [] => true
  | e :: rest => if e.log = log then e.cleared else silent log rest

/-- A log writes on until another one writes, and not again before it has emptied the file. -/
def follows (log : Nat) : List Entry → Bool
  | [] => true
  | e :: rest => if e.log = log then follows log rest else silent log rest

/-- No log that has emptied the file goes on behind what another has written since. -/
def unbroken : List Entry → Bool
  | [] => true
  | e :: rest => (!e.cleared || follows e.log rest) && unbroken rest

/-- Records stand whole and in order behind what a file held at first. Where no file is kept, the
file may have been emptied, and then it holds the last of them. -/
def Whole (maxFiles : Nat) (start : ByteArray) (records : List ByteArray) (bytes : ByteArray) :
    Prop :=
  bytes = start ++ joined records ∨
    maxFiles = 0 ∧ ∃ kept, kept <:+ records ∧ bytes = joined kept

theorem foldl_append (records : List ByteArray) (start : ByteArray) :
    records.foldl (· ++ ·) start = start ++ joined records := by
  induction records generalizing start with
  | nil => exact ByteArray.append_empty.symm
  | cons record records ih =>
    unfold joined
    rw [List.foldl_cons, List.foldl_cons, ih, ih (_ ++ record), ByteArray.empty_append,
      ByteArray.append_assoc]

theorem joined_cons (record : ByteArray) (records : List ByteArray) :
    joined (record :: records) = record ++ joined records := by
  rw [joined, List.foldl_cons, foldl_append, ByteArray.empty_append]

section Whole

variable {maxFiles : Nat} {start bytes record : ByteArray} {records : List ByteArray}

theorem Whole.cons (h : Whole maxFiles (start ++ record) records bytes) :
    Whole maxFiles start (record :: records) bytes := by
  rcases h with rfl | ⟨hmax, kept, hkept, hbytes⟩
  · left
    rw [joined_cons, ByteArray.append_assoc]
  · exact Or.inr ⟨hmax, kept, hkept.trans (List.suffix_cons _ _), hbytes⟩

/-- From a record on for which the file was emptied, nothing is missing. -/
theorem Whole.cleared (hmax : maxFiles = 0) (h : Whole maxFiles record records bytes) :
    Whole maxFiles start (record :: records) bytes := by
  rcases h with rfl | ⟨-, kept, hkept, hbytes⟩
  · exact Or.inr ⟨hmax, record :: records, List.suffix_rfl, (joined_cons _ _).symm⟩
  · exact Or.inr ⟨hmax, kept, hkept.trans (List.suffix_cons _ _), hbytes⟩

end Whole

/-! ## What a visit does -/

/-- On a visit nothing is written, a log is opened, or a record is written by one of the logs. -/
inductive Site.Visited (s : Site) (d : Desk) (visit : Visit) : Prop where
  /-- The logs stay as they are. -/
  | idle (entry : d.entry? visit = none) (logs : (s.visit d visit).writers.logs = d.writers.logs)
      (volume : d.volume.Rearranged (s.visit d visit).volume)
  /-- There is one more log, which appends to a file. -/
  | opened (log : RollingLog) (entry : d.entry? visit = none)
      (logs : (s.visit d visit).writers.logs = d.writers.logs.push log)
      (volume : d.volume.Rearranged (s.visit d visit).volume) (maxFiles : log.maxFiles = s.maxFiles)
      (appending : log.file.appending = true)
      (there : d.volume.Backed → log.file.file < (s.visit d visit).volume.contents.size)
  /-- A log has written a record. -/
  | written (i : Nat) (log log' : RollingLog) (record : ByteArray)
      (entry : d.entry? visit = some ⟨i, log.clears record, log'.file.file, record⟩)
      (found : d.writers.logs[i]? = some log)
      (write : (log.write record).run.run d.volume = (.ok log', (s.visit d visit).volume))
      (logs : (s.visit d visit).writers.logs = d.writers.logs.setIfInBounds i log')

theorem Site.visited_start (s : Site) (d : Desk) (name : String) :
    s.Visited d (.start name) := by
  have hvisit : s.visit d (.start name) =
      match (RollingLog.start s.dir s.appName s.maxBytes s.maxFiles).run.run d.volume with
      | (.ok log, v) => ⟨{ d.writers with logs := d.writers.logs.push log }.point name
          d.writers.logs.size, v⟩
      | (.error _, v) => ⟨d.writers, v⟩ := by
    unfold Site.visit Site.act Writers.start
    dsimp only
    rw [FileAction.run_bind]
    rcases (RollingLog.start s.dir s.appName s.maxBytes s.maxFiles).run.run d.volume with
      ⟨e | log, v⟩ <;> rfl
  rcases hrun : (RollingLog.start s.dir s.appName s.maxBytes s.maxFiles).run.run d.volume with
    ⟨e | log, v⟩ <;> rw [hrun] at hvisit
  · refine .idle rfl ?_ ?_ <;> rw [hvisit]
    exact (RollingLog.start_spares _ _ _ _).of_run hrun
  · obtain ⟨-, hmax, happending, hthere⟩ := RollingLog.start_ok hrun
    refine .opened log rfl ?_ ?_ hmax happending ?_ <;> rw [hvisit]
    · rfl
    · exact (RollingLog.start_spares _ _ _ _).of_run hrun
    · exact hthere

theorem Site.visited_write (s : Site) (d : Desk) (name : String) (record : ByteArray) :
    s.Visited d (.turn (.write name record)) := by
  have hidle : (d.writers.write name record).run.run d.volume = (.ok d.writers, d.volume) →
      d.entry? (.turn (.write name record)) = none → s.Visited d (.turn (.write name record)) := by
    intro hrun hentry
    have hvisit : s.visit d (.turn (.write name record)) = ⟨d.writers, d.volume⟩ := by
      unfold Site.visit Site.act Writers.turn
      dsimp only
      rw [hrun]
    refine .idle hentry ?_ ?_ <;> rw [hvisit]
    exact .refl _
  have hupdate : d.writers.write name record = d.writers.update name (·.write record) := rfl
  unfold Writers.update at hupdate
  unfold Desk.entry? at hidle
  dsimp only at hidle
  cases hindex : d.writers.index? name with
  | none =>
    rw [hindex] at hupdate hidle
    exact hidle (by rw [hupdate]; rfl) rfl
  | some i =>
    cases hsome : d.writers.log? name with
    | none =>
      rw [hindex, hsome] at hupdate hidle
      exact hidle (by rw [hupdate]; rfl) rfl
    | some log =>
      have hlog : d.writers.logs[i]? = some log := by
        unfold Writers.log? at hsome
        rw [hindex] at hsome
        exact hsome
      rw [hindex, hsome] at hupdate
      have hvisit : s.visit d (.turn (.write name record)) =
          match (log.write record).run.run d.volume with
          | (.ok log', v) => ⟨{ d.writers with logs := d.writers.logs.setIfInBounds i log' }, v⟩
          | (.error _, v) => ⟨d.writers, v⟩ := by
        unfold Site.visit Site.act Writers.turn
        dsimp only
        rw [hupdate]
        dsimp only
        rw [FileAction.run_bind]
        rcases (log.write record).run.run d.volume with ⟨e | log', v⟩ <;> rfl
      have hentry : d.entry? (.turn (.write name record)) =
          match (log.write record).run.run d.volume with
          | (.ok log', _) => some ⟨i, log.clears record, log'.file.file, record⟩
          | (.error _, _) => none := by
        unfold Desk.entry?
        dsimp only
        rw [hindex, hsome]
      rcases hrun : (log.write record).run.run d.volume with ⟨e | log', v⟩ <;>
        rw [hrun] at hvisit hentry
      · refine .idle hentry ?_ ?_ <;> rw [hvisit]
        exact RollingLog.rearranged_of_write_error hrun
      · refine .written i log log' record hentry hlog ?_ ?_ <;> rw [hvisit]
        exact hrun

theorem Site.visited (s : Site) (d : Desk) (visit : Visit) : s.Visited d visit := by
  cases visit with
  | start name => exact s.visited_start d name
  | turn turn =>
    cases turn with
    | clone source name =>
      have hvisit : ∃ w : Writers, s.visit d (.turn (.clone source name)) = ⟨w, d.volume⟩ ∧
          w.logs = d.writers.logs := by
        unfold Site.visit Site.act Writers.turn
        dsimp only
        cases d.writers.index? source with
        | none => exact ⟨d.writers, rfl, rfl⟩
        | some index => exact ⟨d.writers.point name index, rfl, rfl⟩
      obtain ⟨w, hvisit, hlogs⟩ := hvisit
      refine .idle rfl ?_ ?_ <;> rw [hvisit]
      · exact hlogs
      · exact .refl _
    | close name => exact .idle rfl rfl (.refl _)
    | write name record => exact s.visited_write d name record

/-! ## What every run of visits keeps -/

/-- A log is fit for what lies ahead. It appends; or it has emptied the file, and then it is at the
end as long as it goes on, and after that it does not write on. -/
structure Fit (s : Site) (v : Volume) (ahead : List Entry) (i : Nat) (log : RollingLog) : Prop where
  /-- It has the limits of the site. -/
  maxFiles : log.maxFiles = s.maxFiles
  /-- Its file is there. -/
  there : log.file.file < v.contents.size
  /-- It appends, or it is careful. -/
  careful : log.file.appending = true ∨ s.maxFiles = 0 ∧
    (silent i ahead = true ∨ follows i ahead = true ∧ log.file.AtEnd v)

/-- All logs are fit for what lies ahead, and no name stands for a file that is not there. -/
structure Tended (s : Site) (ahead : List Entry) (d : Desk) : Prop where
  /-- Names stand for files. -/
  backed : d.volume.Backed
  /-- The logs are fit. -/
  fit : ∀ i log, d.writers.logs[i]? = some log → Fit s d.volume ahead i log

variable {s : Site} {ahead : List Entry} {d : Desk} {i j : Nat}

theorem Fit.rearranged (h : Fit s v ahead i log) (hv : v.Rearranged v') : Fit s v' ahead i log := by
  refine ⟨h.maxFiles, Nat.lt_of_lt_of_le h.there hv.size,
    h.careful.imp id (And.imp id (.imp id ?_))⟩
  rintro ⟨hfollows, hend⟩
  refine ⟨hfollows, hend.imp id fun hoffset => ?_⟩
  rw [hv.content]
  exact hoffset

theorem Fit.ready {e : Entry} (h : Fit s v (e :: ahead) i log) (he : e.log = i)
    (hcleared : e.cleared = false) : log.Ready v := by
  refine ⟨h.there, ?_⟩
  rcases h.careful with happending | ⟨-, hsilent | ⟨-, hend⟩⟩
  · exact Or.inl happending
  · rw [silent, if_pos he, hcleared] at hsilent
    cases hsilent
  · exact hend

/-- What another log writes ends the time in which a log goes on. -/
theorem Fit.other {e : Entry} (h : Fit s v (e :: ahead) i log) (he : e.log ≠ i)
    (hsize : v.contents.size ≤ v'.contents.size) : Fit s v' ahead i log := by
  refine ⟨h.maxFiles, Nat.lt_of_lt_of_le h.there hsize, h.careful.imp id (And.imp id fun h => ?_)⟩
  left
  rcases h with hsilent | ⟨hfollows, -⟩
  · rw [silent, if_neg he] at hsilent
    exact hsilent
  · rw [follows, if_neg he] at hfollows
    exact hfollows

/-- A log that has written is fit again, and its record stands behind what the file held, or alone
if the file was emptied for it. -/
theorem Fit.write {file : FileId}
    (h : Fit s v (⟨i, log.clears record, file, record⟩ :: ahead) i log) (hv : v.Backed)
    (hahead : log.clears record = true → follows i ahead = true)
    (hrun : (log.write record).run.run v = (.ok log', v')) :
    Fit s v' ahead i log' ∧ Appended log'.file.file
      (if log.clears record then ByteArray.empty else v.content log'.file.file) record v v' := by
  by_cases hfull : log.overflows record.size = true
  · have hclears : log.clears record = true ↔ log.maxFiles = 0 := by
      unfold RollingLog.clears
      rw [hfull, Bool.and_true, beq_iff_eq]
    obtain ⟨hmax, hready, happending, happended⟩ := RollingLog.write_overflowing hfull hv hrun
    simp only [hclears]
    refine ⟨⟨hmax.trans h.maxFiles, hready.there, ?_⟩, happended⟩
    by_cases hfiles : log.maxFiles = 0
    · exact Or.inr ⟨h.maxFiles ▸ hfiles, Or.inr ⟨hahead (hclears.mpr hfiles), hready.atEnd⟩⟩
    · exact Or.inl (happending hfiles)
  · have hfits : log.overflows record.size = false := Bool.eq_false_iff.mpr hfull
    have hclears : log.clears record = false := by
      unfold RollingLog.clears
      rw [hfits, Bool.and_false]
    obtain ⟨hmax, hready, happending, happended⟩ :=
      RollingLog.write_fitting hfits (h.ready rfl hclears) hrun
    rw [hclears, if_neg Bool.false_ne_true]
    refine ⟨⟨hmax.trans h.maxFiles, hready.there, ?_⟩, happended⟩
    rcases h.careful with hlog | ⟨hfiles, hsilent | ⟨hfollows, -⟩⟩
    · exact Or.inl (happending.trans hlog)
    · rw [silent, if_pos rfl, hclears] at hsilent
      cases hsilent
    · rw [follows, if_pos rfl] at hfollows
      exact Or.inr ⟨hfiles, Or.inr ⟨hfollows, hready.atEnd⟩⟩

/-- Behind a record that was written, or that the file was emptied for, records stand whole. -/
theorem Appended.whole {e : Entry} {maxFiles : Nat} {v v' : Volume}
    (h : Appended e.file (if e.cleared then ByteArray.empty else v.content e.file) e.record v v')
    (hmax : e.cleared = true → maxFiles = 0) {id : FileId} {records : List ByteArray}
    {bytes : ByteArray} (hwhole : Whole maxFiles (v'.content id) records bytes) :
    Whole maxFiles (v.content id) (recordsOf id [e] ++ records) bytes := by
  rw [h.content] at hwhole
  by_cases hid : id = e.file
  · subst hid
    have hrecords : recordsOf e.file [e] = [e.record] := by
      simp [recordsOf]
    rw [hrecords, List.singleton_append]
    rw [if_pos rfl] at hwhole
    split at hwhole
    · rename_i hclear
      rw [ByteArray.empty_append] at hwhole
      exact hwhole.cleared (hmax hclear)
    · exact hwhole.cons
  · have hrecords : recordsOf id [e] = [] := by
      simp [recordsOf, Ne.symm hid]
    rw [hrecords, List.nil_append]
    rw [if_neg hid] at hwhole
    exact hwhole

/-- One visit: the logs stay fit, and each file holds what it held and whole records. -/
theorem Tended.visit {visit : Visit} (h : Tended s ((d.entry? visit).toList ++ ahead) d)
    (hahead : s.maxFiles = 0 → unbroken ((d.entry? visit).toList ++ ahead) = true) :
    Tended s ahead (s.visit d visit) ∧ ∀ id records bytes,
      Whole s.maxFiles ((s.visit d visit).volume.content id) records bytes →
      Whole s.maxFiles (d.volume.content id) (recordsOf id (d.entry? visit).toList ++ records)
        bytes := by
  cases s.visited d visit with
  | idle hentry hlogs hvolume =>
    rw [hentry] at h ⊢
    refine ⟨⟨hvolume.backed h.backed, fun j log hlog => ?_⟩, fun id records bytes hwhole => ?_⟩
    · rw [hlogs] at hlog
      exact (h.fit j log hlog).rearranged hvolume
    · rw [hvolume.content] at hwhole
      exact hwhole
  | opened log hentry hlogs hvolume hmax happending hthere =>
    rw [hentry] at h ⊢
    refine ⟨⟨hvolume.backed h.backed, fun j log' hlog => ?_⟩, fun id records bytes hwhole => ?_⟩
    · rw [hlogs, Array.getElem?_push] at hlog
      split at hlog
      · cases hlog
        exact ⟨hmax, hthere h.backed, Or.inl happending⟩
      · exact (h.fit j log' hlog).rearranged hvolume
    · rw [hvolume.content] at hwhole
      exact hwhole
  | written i log log' record hentry hfound hwrite hlogs =>
    rw [hentry] at h hahead ⊢
    have hfit := h.fit i log hfound
    have hclears : log.clears record = true → s.maxFiles = 0 := by
      intro hclears
      rw [← hfit.maxFiles]
      exact beq_iff_eq.mp (Bool.and_eq_true_iff.mp hclears).1
    have hfollows : log.clears record = true → follows i ahead = true := by
      intro hclear
      have hall := hahead (hclears hclear)
      rw [Option.toList_some, List.singleton_append, unbroken, Bool.and_eq_true, hclear] at hall
      exact hall.1
    obtain ⟨hfit', happended⟩ := hfit.write h.backed hfollows hwrite
    refine ⟨⟨happended.backed h.backed, fun j log1 hlog1 => ?_⟩, fun id records bytes hwhole => ?_⟩
    · rw [hlogs, Array.getElem?_setIfInBounds] at hlog1
      split at hlog1
      · rename_i hij
        split at hlog1
        · cases hlog1
          exact hij ▸ hfit'
        · cases hlog1
      · rename_i hij
        exact (h.fit j log1 hlog1).other hij happended.size
    · exact happended.whole (e := ⟨i, log.clears record, log'.file.file, record⟩) hclears hwhole

theorem recordsOf_append (id : FileId) (entries entries' : List Entry) :
    recordsOf id (entries ++ entries') = recordsOf id entries ++ recordsOf id entries' := by
  unfold recordsOf
  rw [List.filter_append, List.map_append]

theorem unbroken_append {entries entries' : List Entry}
    (h : unbroken (entries ++ entries') = true) : unbroken entries' = true := by
  induction entries with
  | nil => exact h
  | cons e entries ih => exact ih (Bool.and_eq_true_iff.mp h).2

/-- Visit after visit: each file holds what it held at first and whole records. -/
theorem Tended.run {visits : List Visit} (h : Tended s (s.run d visits).1 d)
    (hahead : s.maxFiles = 0 → unbroken (s.run d visits).1 = true) :
    (s.run d visits).2.volume.Backed ∧ ∀ id, Whole s.maxFiles (d.volume.content id)
      (recordsOf id (s.run d visits).1) ((s.run d visits).2.volume.content id) := by
  induction visits generalizing d with
  | nil =>
    refine ⟨h.backed, fun id => Or.inl ?_⟩
    exact ByteArray.append_empty.symm
  | cons visit visits ih =>
    have hrun : (s.run d (visit :: visits)).1 =
        (d.entry? visit).toList ++ (s.run (s.visit d visit) visits).1 := rfl
    rw [hrun] at h hahead ⊢
    obtain ⟨htended, hwhole⟩ := h.visit hahead
    obtain ⟨hbacked, hrest⟩ := ih htended fun hfiles => unbroken_append (hahead hfiles)
    refine ⟨hbacked, fun id => ?_⟩
    rw [recordsOf_append]
    exact hwhole id _ _ (hrest id)

/-- What a path leads to is read. -/
theorem readAll_of_find? {path : String} {id : FileId} (h : v.find? path = some (.file id)) :
    (FileAction.readAll path).run.run v = (.ok (v.content id), v) := by
  unfold FileAction.readAll
  rw [FileAction.run_bind, FileAction.target_run]
  unfold Volume.find? at h
  split at h
  · cases h
  · rename_i t hlocate
    rw [hlocate]
    dsimp only [Except.map]
    split at h
    · rename_i id' hnode
      rw [hnode]
      split at h
      · cases h
      · rename_i hdir
        cases h
        dsimp only
        rw [if_neg hdir]
        rfl
    · rename_i other hother
      exact absurd h (hother id)

/-- No record is torn, however many logs are open at a site and however their writes follow one
another: each file of the site holds what it held at first and behind it, whole and in order, the
records that were written to it. Where no file is kept, a file may have been emptied, and then it
holds the last of them; but there no log may go on behind what another has written since it emptied
the file itself. -/
theorem records_never_torn {s : Site} {v : Volume} {visits : List Visit} {entries : List Entry}
    {last : Desk} (hv : v.Backed) (hrun : s.run { volume := v } visits = (entries, last))
    (hunbroken : s.maxFiles = 0 → unbroken entries = true) {i : Nat} {id : FileId}
    (hfile : last.volume.find? (filePath s.dir s.appName i) = some (.file id)) :
    ∃ bytes, (FileAction.readAll (filePath s.dir s.appName i)).run.run last.volume =
        (.ok bytes, last.volume) ∧
      Whole s.maxFiles (v.content id) (recordsOf id entries) bytes := by
  have htended : Tended s (s.run { volume := v } visits).1 { volume := v } := by
    refine ⟨hv, fun i log hlog => ?_⟩
    rw [show ({ volume := v } : Desk).writers.logs = #[] from rfl] at hlog
    cases hlog
  have hall := htended.run
  rw [hrun] at hall
  exact ⟨_, readAll_of_find? hfile, (hall hunbroken).2 id⟩

/-- Two logs write to a file that is emptied once; neither writes on behind the other after that. -/
theorem records_never_torn_of_two :
    let s : Site := ⟨".", "App", 4, 0⟩
    let visits : List Visit := [.start "a", .start "b", .turn (.write "a" "aa".toUTF8),
      .turn (.write "b" "bb".toUTF8), .turn (.write "a" "ccc".toUTF8),
      .turn (.write "a" "d".toUTF8), .turn (.write "b" "ee".toUTF8)]
    let last := (s.run { volume := .empty } visits).2.volume
    ∃ bytes, (FileAction.readAll (filePath "." "App" 0)).run.run last = (.ok bytes, last) ∧
      Whole 0 ByteArray.empty
        ["aa".toUTF8, "bb".toUTF8, "ccc".toUTF8, "d".toUTF8, "ee".toUTF8] bytes := by
  intro s visits last
  have hv : Volume.empty.Backed := by
    intro n hn id hid
    simp only [Volume.empty, List.mem_cons, List.not_mem_nil, or_false] at hn
    rcases hn with rfl | rfl <;> cases hid
  have hunbroken : unbroken (s.run { volume := .empty } visits).1 = true := by decide +kernel
  have hfind : last.find? (filePath "." "App" 0) = some (.file 0) := by decide +kernel
  have hrecords : recordsOf 0 (s.run { volume := .empty } visits).1 =
      ["aa".toUTF8, "bb".toUTF8, "ccc".toUTF8, "d".toUTF8, "ee".toUTF8] := by decide +kernel
  obtain ⟨bytes, hread, hwhole⟩ := records_never_torn hv rfl (fun _ => hunbroken) hfind
  rw [hrecords] at hwhole
  exact ⟨bytes, hread, hwhole⟩

/-- A log that has emptied the file writes on at its own offset, and so over a record that another
log has written since. -/
theorem record_overwritten_where_none_kept :
    let s : Site := ⟨".", "App", 8, 0⟩
    let before : List Visit := [.start "a", .start "b", .turn (.write "a" "aaaaaaaa".toUTF8),
      .turn (.write "a" "bb".toUTF8), .turn (.write "b" "cccc".toUTF8)]
    let after := before ++ [.turn (.write "a" "dd".toUTF8)]
    let path := filePath "." "App" 0
    ((FileAction.readAll path).run.run
        (s.run { volume := .empty } before).2.volume).1.toOption = some "bbcccc".toUTF8 ∧
      ((FileAction.readAll path).run.run
        (s.run { volume := .empty } after).2.volume).1.toOption = some "bbddcc".toUTF8 ∧
      (s.run { volume := .empty } after).2.volume.find? path = some (.file 0) ∧
      ¬ Whole 0 ByteArray.empty (recordsOf 0 (s.run { volume := .empty } after).1)
        "bbddcc".toUTF8 := by
  intro s before after path
  have hrecords : recordsOf 0 (s.run { volume := .empty } after).1 =
      ["aaaaaaaa".toUTF8, "bb".toUTF8, "cccc".toUTF8, "dd".toUTF8] := by decide +kernel
  have hkept : ∀ kept ∈ ["aaaaaaaa".toUTF8, "bb".toUTF8, "cccc".toUTF8, "dd".toUTF8].tails,
      "bbddcc".toUTF8 ≠ joined kept := by decide +kernel
  refine ⟨by decide +kernel, by decide +kernel, by decide +kernel, ?_⟩
  rw [hrecords]
  rintro (hall | ⟨-, kept, hsuffix, hbytes⟩)
  · rw [ByteArray.empty_append] at hall
    exact hkept _ ((List.mem_tails _ _).mpr List.suffix_rfl) hall
  · exact hkept kept ((List.mem_tails _ _).mpr hsuffix) hbytes

end Pinboard.Log
