import Pinboard.Log.Journal
import Pinboard.Proofs.Restarts

/-!
# Where the next record of a log goes

A log that keeps files and appends writes a record behind what its file holds, or, if it does not
fit, into a file that was not there before. It never goes on in a file that something else has made
in the meantime, not even in one that has come to stand at its own path. Where the old file cannot
be set aside, the record is lost, and nothing is written.
-/

namespace Pinboard.Files

theorem OpenFile.write_file {f f' : OpenFile} {bytes : ByteArray} {v v' : Volume}
    (h : (f.write bytes).run.run v = (.ok f', v')) : f'.file = f.file := by
  unfold write at h
  split at h
  · cases h
    rfl
  · rw [FileAction.run_get_bind] at h
    split at h <;> (cases h; rfl)

/-- A path at which something was opened leads somewhere. -/
theorem FileAction.locate_of_openOrCreate {path : String} {id : FileId} {v v' : Volume}
    (h : (openOrCreate path).run.run v = (.ok id, v')) : ∃ t, v.locate path = .ok t := by
  cases hlocate : v.locate path with
  | ok t => exact ⟨t, rfl⟩
  | error e =>
    unfold openOrCreate at h
    rw [run_bind, target_run, hlocate] at h
    cases h

end Pinboard.Files

namespace Pinboard.Log

open Files

/-- A log keeps files and appends to one that is there. -/
structure RollingLog.Appends (log : RollingLog) (v : Volume) : Prop where
  /-- It sets files aside. -/
  kept : log.maxFiles ≠ 0
  /-- Its open file is there. -/
  there : log.file.file < v.contents.size
  /-- It writes behind whatever the file holds. -/
  appending : log.file.appending = true

namespace RollingLog

variable {log log' : RollingLog} {record : ByteArray} {v v' : Volume}

theorem Appends.ready (h : log.Appends v) : log.Ready v := ⟨h.there, Or.inl h.appending⟩

theorem Appends.of_size (h : log.Appends v) (hsize : v.contents.size ≤ v'.contents.size) :
    log.Appends v' := ⟨h.kept, Nat.lt_of_lt_of_le h.there hsize, h.appending⟩

/-- Once the active file is set aside, nothing stands at its path, so that what is opened there is
new. -/
theorem rotate_fresh (hkept : log.maxFiles ≠ 0) (h : log.rotate.run.run v = (.ok log', v')) :
    log'.path = log.path ∧ v.contents.size ≤ log'.file.file := by
  obtain ⟨m, hfiles⟩ := Nat.exists_eq_succ_of_ne_zero hkept
  rw [rotate_eq hfiles] at h
  obtain ⟨_, v1, hdrop, h⟩ := FileAction.run_bind_eq_ok.mp h
  obtain ⟨_, v2, hshift, h⟩ := FileAction.run_bind_eq_ok.mp h
  obtain ⟨_, v3, hrename, h⟩ := FileAction.run_bind_eq_ok.mp h
  obtain ⟨file, v4, happend, h⟩ := FileAction.run_bind_eq_ok.mp h
  obtain ⟨id, v5, hopen, hfile⟩ := FileAction.run_bind_eq_ok.mp happend
  cases h
  cases hfile
  have hmoved : v.Rearranged v3 :=
    (((drop_spares _ v).of_run hdrop).trans ((shift_spares _ _ m).of_run hshift)).trans
      ((FileAction.rename_spares _ _).of_run hrename)
  obtain ⟨t, hlocate⟩ := FileAction.locate_of_openOrCreate hopen
  obtain ⟨r, rfl⟩ := exists_rack hlocate
  have hactive : v2.Leads log.path (r.place 0) := leads_of_active hlocate v2 0
  have hyoungest : v2.Leads (rotatedPath log.dir log.appName 1) (r.place 1) :=
    leads_of_active hlocate v2 1
  have hfree : v3.node? (r.place 0) = none :=
    FileAction.rename_vacates hactive hyoungest (Rack.place_ne_nil 0)
      (Rack.place_not_below (by decide)) hrename
  rw [FileAction.openOrCreate_free hlocate hfree] at hopen
  cases hopen
  exact ⟨rfl, hmoved.size⟩

/-- With a directory in the last place, no file is set aside, and none is moved. -/
theorem rotate_blocked {m : Nat} (hfiles : log.maxFiles = m + 1)
    (hnames : ∀ i ≤ m + 1, (v.locate (filePath log.dir log.appName i)).isOk = true)
    (hway : ".." ∉ (Path.ofText log.path).names)
    (holdest : v.isDirectory (filePath log.dir log.appName (m + 1)) = true) :
    log.rotate.run.run v = (.error .isADirectory, v) := by
  obtain ⟨r, hr⟩ := exists_reached hnames (Or.inr hway)
  obtain ⟨t, hlocate, hnode⟩ := Volume.isDirectory_iff.mp holdest
  cases (hr.locate (m + 1) (Nat.le_refl _)).symm.trans hlocate
  exact rotate_error_directory hfiles hr hnode

/-- Nothing more fits into a file that is full. -/
theorem overflows_full {size : Nat} (hfull : log.written = log.maxBytes) (hmax : 0 < log.maxBytes)
    (hsize : 0 < size) : log.overflows size = true := by
  unfold overflows
  rw [hfull, Bool.and_eq_true, decide_eq_true_iff, decide_eq_true_iff]
  omega

/-- A record comes behind what the log's file holds, or into a new one. -/
theorem Appends.write (h : log.Appends v) (hv : v.Backed)
    (hrun : (log.write record).run.run v = (.ok log', v')) :
    log'.Appends v' ∧ log'.path = log.path ∧
      Appended log'.file.file (v.content log'.file.file) record v v' ∧
      (log'.file.file = log.file.file ∨ v.contents.size ≤ log'.file.file) := by
  by_cases hfull : log.overflows record.size = true
  · obtain ⟨hmax, hready, happending, happended⟩ := write_overflowing hfull hv hrun
    rw [if_neg h.kept] at happended
    rw [write_overflows hfull] at hrun
    obtain ⟨log1, v1, hrotate, hrun⟩ := FileAction.run_bind_eq_ok.mp hrun
    obtain ⟨file, v2, hwrite, hrun⟩ := FileAction.run_bind_eq_ok.mp hrun
    obtain ⟨hpath, hfresh⟩ := rotate_fresh h.kept hrotate
    cases hrun
    refine ⟨⟨hmax ▸ h.kept, hready.there, happending h.kept⟩, hpath, happended, Or.inr ?_⟩
    rw [← OpenFile.write_file hwrite] at hfresh
    exact hfresh
  · have hfits : log.overflows record.size = false := Bool.eq_false_iff.mpr hfull
    obtain ⟨hmax, hready, happending, happended⟩ := write_fitting hfits h.ready hrun
    rw [write_fits hfits] at hrun
    obtain ⟨file, v1, hwrite, hrun⟩ := FileAction.run_bind_eq_ok.mp hrun
    cases hrun
    exact ⟨⟨h.kept, hready.there, happending.trans h.appending⟩, rfl, happended,
      Or.inl (OpenFile.write_file hwrite)⟩

theorem start_appends {dir appName : String} {maxBytes maxFiles : Nat} (hkept : maxFiles ≠ 0)
    (hv : v.Backed) (h : (start dir appName maxBytes maxFiles).run.run v = (.ok log, v')) :
    log.Appends v' ∧ log.path = activePath dir appName := by
  obtain ⟨hpath, hmax, happending, hthere⟩ := start_ok h
  exact ⟨⟨hmax ▸ hkept, hthere hv, happending⟩, hpath⟩

end RollingLog

/-- A line is at least a blank and an end. -/
theorem two_le_size_lineText (stamp : String) (level : Level) (source message : String) :
    2 ≤ (lineText stamp level source message).toUTF8.size := by
  have hline : lineText stamp level source message =
      stamp ++ " " ++ level.label ++ " " ++ source ++ ": " ++ plain message ++ "\n" := rfl
  have hend : "\n".utf8ByteSize = 1 := by decide
  have hblank : " ".utf8ByteSize = 1 := by decide
  rw [String.toUTF8, String.size_toByteArray, hline]
  simp only [String.utf8ByteSize_append, hend, hblank]
  omega

end Pinboard.Log
