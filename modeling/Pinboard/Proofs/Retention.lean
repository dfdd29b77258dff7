import Pinboard.Proofs.Segments
import Pinboard.Proofs.Shifting

/-!
# What a log keeps

A log file holds one segment of the records that were sent, the active file the last one, and each
file that was set aside the one before its younger neighbour. The invariant `Holds` says this of the
places of a log and of the file that is open; every write keeps it, as long as there are no more
segments than files whose names the system takes.
-/

namespace Pinboard.Log

open Files

/-! ## What stands at the places of a log -/

/-- A place holds a segment, or nothing. -/
def Shelved (v : Volume) (q : Place) : Option (List ByteArray) → Prop
  | none => v.node? q = none
  | some segment => ∃ id, v.node? q = some (.file id) ∧ id < v.contents.size ∧
      v.content id = joined segment

/-- The files of a log whose names are taken, up to a number `k`, hold the newest segments, and the
log writes to the end of the newest. -/
structure Holds (r : Rack) (log : RollingLog) (k : Nat) (current : List ByteArray)
    (older : List (List ByteArray)) (v : Volume) : Prop where
  /-- The names are taken up to that number. -/
  spans : r.Spans log.dir log.appName log.maxFiles k v
  /-- Each number up to it has its segment. -/
  shelved : ∀ i ≤ k, Shelved v (r.place i) (current :: older)[i]?
  /-- The file that is open is the active one. -/
  active : v.node? (r.place 0) = some (.file log.file.file)
  /-- It has no other number. -/
  alone : ∀ i ≤ k, v.node? (r.place i) = some (.file log.file.file) → i = 0
  /-- It is written at its end. -/
  atEnd : log.file.AtEnd v
  /-- Its length is known. -/
  written : log.written = (joined current).size

/-- Beside the files of a log nothing changes, and no file that was there before it. -/
structure Beside (r : Rack) (m n : Nat) (v v' : Volume) : Prop where
  /-- What stands elsewhere is the same. -/
  apart : r.Apart m v v'
  /-- The first files hold the same. -/
  contents : ∀ id < n, v'.content id = v.content id

variable {r : Rack} {log : RollingLog} {current : List ByteArray} {older : List (List ByteArray)}
  {v v' v'' : Volume} {k m n : Nat}

theorem Beside.refl (r : Rack) (m n : Nat) (v : Volume) : Beside r m n v v :=
  ⟨.refl r m v, fun _ _ => rfl⟩

theorem Beside.trans (h : Beside r m n v v') (h' : Beside r m n v' v'') : Beside r m n v v'' :=
  ⟨h.apart.trans h'.apart, fun id hid => (h'.contents id hid).trans (h.contents id hid)⟩

theorem Holds.content (h : Holds r log k current older v) :
    log.file.file < v.contents.size ∧ v.content log.file.file = joined current := by
  obtain ⟨id, hnode, hid, hcontent⟩ := h.shelved 0 (Nat.zero_le _)
  rw [h.active] at hnode
  cases hnode
  exact ⟨hid, hcontent⟩

/-- A segment is shelved wherever its file has gone, as long as that holds the same. -/
theorem Shelved.move {q q' : Place} {segment : Option (List ByteArray)} (h : Shelved v q segment)
    (hnode : v'.node? q' = v.node? q) (hsize : v.contents.size ≤ v'.contents.size)
    (hcontent : ∀ id < v.contents.size, v.node? q = some (.file id) →
      v'.content id = v.content id) : Shelved v' q' segment := by
  cases segment with
  | none => exact hnode.trans h
  | some segment =>
    obtain ⟨id, hid, hlt, hsame⟩ := h
    exact ⟨id, hnode.trans hid, Nat.lt_of_lt_of_le hlt hsize, (hcontent id hlt hid).trans hsame⟩

theorem Shelved.push {q q' : Place} {segment : Option (List ByteArray)}
    (h : Shelved v q segment) (hnode : v'.node? q' = v.node? q)
    (hcontents : v'.contents = v.contents.push ByteArray.empty) : Shelved v' q' segment := by
  refine h.move hnode ?_ fun id hid _ => Volume.content_push v hid hcontents
  rw [hcontents, Array.size_push]
  exact Nat.le_succ _

theorem Shelved.ne_directory {q : Place} {segment : Option (List ByteArray)}
    (h : Shelved v q segment) : v.node? q ≠ some .directory := by
  intro hdir
  cases segment with
  | none => cases hdir.symm.trans h
  | some segment =>
    obtain ⟨id, hid, -⟩ := h
    cases hdir.symm.trans hid

/-- A number below those of all files is the active file's only. -/
theorem not_shelved_new {q : Place} {segment : Option (List ByteArray)}
    (h : Shelved v q segment) : v.node? q ≠ some (.file v.contents.size) := by
  intro hnode
  cases segment with
  | none =>
    rw [show v.node? q = none from h] at hnode
    cases hnode
  | some segment =>
    obtain ⟨id, hid, hlt, -⟩ := h
    rw [hid] at hnode
    cases hnode
    exact Nat.lt_irrefl _ hlt

/-- Where there is no segment for a number, there is no file. -/
theorem Holds.absent (h : Holds r log k current older v) {i : Nat} (hi : i ≤ log.maxFiles)
    (hnone : older.length < i) : v.exists? (filePath log.dir log.appName i) = false := by
  by_cases hk : k < i
  · exact h.spans.exists?_beyond hk hi
  · have hshelved := h.shelved i (Nat.le_of_not_lt hk)
    rw [List.getElem?_eq_none (Nat.succ_le_of_lt hnone)] at hshelved
    rw [h.spans.reached.exists? (Nat.le_of_not_lt hk),
      show v.node? (r.place i) = none from hshelved]
    rfl

/-- The files of a log are read as the segments that it holds. -/
theorem Holds.read (h : Holds r log k current older v) {i : Nat} (hi : i ≤ log.maxFiles)
    (hroom : k = log.maxFiles ∨ (current :: older).length ≤ k + 1) :
    match (current :: older)[i]? with
    | some segment =>
      (FileAction.readAll (filePath log.dir log.appName i)).run.run v = (.ok (joined segment), v)
    | none => v.exists? (filePath log.dir log.appName i) = false := by
  rw [List.length_cons] at hroom
  cases hseg : (current :: older)[i]? with
  | none => exact h.absent hi (List.getElem?_eq_none_iff.mp hseg)
  | some segment =>
    have hlength : i < older.length + 1 := (List.getElem?_eq_some_iff.mp hseg).1
    have hk : i ≤ k := by omega
    have hshelved := h.shelved i hk
    rw [hseg] at hshelved
    obtain ⟨id, hnode, -, hcontent⟩ := hshelved
    show (FileAction.readAll _).run.run v = _
    rw [FileAction.readAll_file (h.spans.reached.locate i hk) hnode, hcontent]

/-! ## Every write keeps the segments in place -/

/-- A log whose next segment has a file can be rotated. -/
theorem Holds.ample (h : Holds r log k current older v) (hfiles : log.maxFiles = m + 1)
    (hroom : k = log.maxFiles ∨ older.length < k) :
    ∃ j, k = j + 1 ∧ r.Ample log j m v := by
  obtain ⟨j, rfl⟩ : ∃ j, k = j + 1 := ⟨k - 1, by omega⟩
  have hle := h.spans.le
  refine ⟨j, rfl, h.spans.reached, ?_, (h.shelved _ (Nat.le_refl _)).ne_directory, by omega,
    fun hj i hlow hhigh => ?_⟩
  · rw [h.active]
    rfl
  · have habsent := h.absent (i := i) (by omega) (by omega)
    rw [filePath, if_neg (by omega)] at habsent
    exact habsent

/-- With files to keep, a rotation shelves the current segment and begins an empty one. -/
theorem Holds.rotate_kept (h : Holds r log k current older v) (hfiles : log.maxFiles = m + 1)
    (hroom : k = log.maxFiles ∨ older.length < k) (hn : n ≤ log.file.file) :
    ∃ log' v', log.rotate.run.run v = (.ok log', v') ∧
      Holds r log' k [] (current :: older) v' ∧ Beside r k n v v' ∧
      log' = { log with file := log'.file, written := 0 } ∧ n ≤ log'.file.file := by
  obtain ⟨hlt, -⟩ := h.content
  obtain ⟨j, rfl, hample⟩ := h.ample hfiles hroom
  obtain ⟨v', hrun, -, hapart, hcontents, hnodes⟩ := rotateWith_run hample hfiles
  -- Each segment is found one number up; the new file is none that any segment is in.
  have hup : ∀ i ≤ j, v'.node? (r.place (i + 1)) = v.node? (r.place i) := by
    intro i hi
    rw [hnodes, rotated, if_neg (by omega), if_pos (by omega)]
    rfl
  have hnew : v'.node? (r.place 0) = some (.file v.contents.size) := by
    rw [hnodes, rotated, if_pos rfl]
  refine ⟨_, v', hrun, ⟨h.spans.of_apart hapart, ?_, hnew, ?_, Or.inl rfl, rfl⟩,
    ⟨hapart, ?_⟩, rfl, ?_⟩
  · intro i hi
    cases i with
    | zero =>
      refine ⟨_, hnew, ?_, Volume.content_push_new hcontents⟩
      rw [hcontents, Array.size_push]
      exact Nat.lt_succ_self _
    | succ i => exact (h.shelved i (by omega)).push (hup i (by omega)) hcontents
  · intro i hi hnode
    cases i with
    | zero => rfl
    | succ i =>
      rw [hup i (by omega)] at hnode
      exact absurd hnode (not_shelved_new (h.shelved i (by omega)))
  · intro id hid
    exact Volume.content_push v (Nat.lt_trans (Nat.lt_of_lt_of_le hid hn) hlt) hcontents
  · show n ≤ v.contents.size
    exact Nat.le_of_lt (Nat.lt_of_le_of_lt hn hlt)

/-- Without files to keep, a rotation empties the active file. -/
theorem Holds.rotate_emptied (h : Holds r log k current older v) (hfiles : log.maxFiles = 0)
    (hn : n ≤ log.file.file) :
    ∃ log' v', log.rotate.run.run v = (.ok log', v') ∧
      Holds r log' k [] (current :: older) v' ∧ Beside r k n v v' ∧
      log' = { log with file := log'.file, written := 0 } ∧ n ≤ log'.file.file := by
  obtain ⟨hlt, -⟩ := h.content
  obtain rfl : k = 0 := Nat.le_zero.mp (hfiles ▸ h.spans.le)
  have hlocate : v.locate log.path = .ok ⟨r.place 0, false⟩ :=
    h.spans.reached.locate 0 (Nat.zero_le _)
  have hopen := FileAction.openOrCreate_file hlocate h.active
  have hcontent := Volume.content_setContent v ByteArray.empty hlt
  have hnode : ∀ q, (v.setContent log.file.file ByteArray.empty).node? q = v.node? q :=
    Rack.node?_contents v _
  have hrun : log.rotate.run.run v =
      (.ok { log with file := ⟨log.file.file, false, 0⟩, written := 0 },
        v.setContent log.file.file ByteArray.empty) := by
    unfold RollingLog.rotate OpenFile.create
    rw [if_pos hfiles, bind_assoc, FileAction.run_bind_ok hopen]
    rfl
  have hempty : (v.setContent log.file.file ByteArray.empty).content log.file.file =
      ByteArray.empty := by
    rw [hcontent, if_pos rfl]
  refine ⟨_, _, hrun, ⟨?_, ?_, ?_, ?_, Or.inr ?_, rfl⟩, ⟨fun q _ => hnode q, ?_⟩, rfl, hn⟩
  · exact h.spans.of_apart fun q _ => hnode q
  · intro i hi
    obtain rfl : i = 0 := Nat.le_zero.mp hi
    refine ⟨log.file.file, (hnode _).trans h.active, ?_, hempty⟩
    simpa [Volume.setContent] using hlt
  · exact (hnode _).trans h.active
  · intro i hi _
    exact Nat.le_zero.mp hi
  · show 0 = _
    rw [hempty]
    rfl
  · intro id hid
    rw [hcontent, if_neg (Nat.ne_of_lt (Nat.lt_of_lt_of_le hid hn))]

/-- A record that is written to the active file belongs to the current segment. -/
theorem Holds.append (h : Holds r log k current older v) (hn : n ≤ log.file.file)
    (record : ByteArray) :
    ∃ file v', (log.file.write record).run.run v = (.ok file, v') ∧
      Holds r { log with file := file, written := log.written + record.size } k
        (current ++ [record]) older v' ∧
      Beside r k n v v' ∧ n ≤ file.file := by
  obtain ⟨hlt, hcurrent⟩ := h.content
  obtain ⟨file, v', hrun, hfile, hend, hnodes, hsize, hcontent⟩ :=
    OpenFile.write_end h.atEnd hlt record
  have hnode : ∀ q, v'.node? q = v.node? q := by
    intro q
    cases q with
    | nil => rfl
    | cons name names =>
      unfold Volume.node?
      rw [hnodes]
  refine ⟨file, v', hrun, ⟨?_, ?_, ?_, ?_, hend, ?_⟩, ⟨fun q _ => hnode q, ?_⟩, ?_⟩
  · exact h.spans.of_apart fun q _ => hnode q
  · intro i hi
    cases i with
    | zero =>
      refine ⟨log.file.file, (hnode _).trans h.active, hsize ▸ hlt, ?_⟩
      rw [hcontent, if_pos rfl, hcurrent, joined_concat]
    | succ i =>
      refine (h.shelved (i + 1) hi).move (hnode _) (Nat.le_of_eq hsize.symm) fun id _ hid => ?_
      have hne : id ≠ log.file.file := by
        rintro rfl
        exact Nat.succ_ne_zero i (h.alone (i + 1) hi hid)
      rw [hcontent, if_neg hne]
  · rw [hnode, hfile]
    exact h.active
  · intro i hi hi0
    refine h.alone i hi ?_
    rw [← hnode, ← hfile]
    exact hi0
  · rw [joined_concat, ByteArray.size_append, ← h.written]
  · intro id hid
    rw [hcontent, if_neg (Nat.ne_of_lt (Nat.lt_of_lt_of_le hid hn))]
  · rw [hfile]
    exact hn

/-- A write stacks its record. -/
theorem Holds.write (h : Holds r log k current older v) (hn : n ≤ log.file.file)
    {record : ByteArray}
    (hroom : k = log.maxFiles ∨ (stack log.maxBytes (current :: older) record).length ≤ k + 1) :
    ∃ log' v' current' older', (log.write record).run.run v = (.ok log', v') ∧
      current' :: older' = stack log.maxBytes (current :: older) record ∧
      Holds r log' k current' older' v' ∧ Beside r k n v v' ∧ n ≤ log'.file.file ∧
      log' = { log with file := log'.file, written := log'.written } := by
  have hoverflows : log.overflows record.size = true ↔
      0 < (joined current).size ∧ log.maxBytes < (joined current).size + record.size := by
    rw [RollingLog.overflows, Bool.and_eq_true, decide_eq_true_iff, decide_eq_true_iff, h.written]
  by_cases hfull : log.overflows record.size = true
  · rw [stack_full (hoverflows.mp hfull), List.length_cons, List.length_cons] at hroom
    have hrotate : ∃ log' v', log.rotate.run.run v = (.ok log', v') ∧
        Holds r log' k [] (current :: older) v' ∧ Beside r k n v v' ∧
        log' = { log with file := log'.file, written := 0 } ∧ n ≤ log'.file.file := by
      by_cases hfiles : log.maxFiles = 0
      · exact h.rotate_emptied hfiles hn
      · obtain ⟨m, hm⟩ := Nat.exists_eq_succ_of_ne_zero hfiles
        exact h.rotate_kept hm (by omega) hn
    obtain ⟨log1, v1, hrun, hholds, hbeside, hlog, hn1⟩ := hrotate
    obtain ⟨file, v2, hwrite, hholds2, hbeside2, hn2⟩ := hholds.append hn1 record
    refine ⟨_, v2, [record], current :: older, ?_, (stack_full (hoverflows.mp hfull) older).symm,
      hholds2, hbeside.trans hbeside2, hn2, ?_⟩
    · rw [write_overflows hfull, FileAction.run_bind_ok hrun, FileAction.run_bind_ok hwrite]
      rfl
    · rw [hlog]
  · obtain ⟨file, v1, hwrite, hholds, hbeside, hn1⟩ := h.append hn record
    refine ⟨_, v1, current ++ [record], older, ?_,
      (stack_fits (mt hoverflows.mpr hfull) older).symm, hholds, hbeside, hn1, rfl⟩
    rw [write_fits (by simpa using hfull), FileAction.run_bind_ok hwrite]
    rfl

/-! ## Every turn keeps the segments in place -/

/-- A turn stacks the record that is sent in it, if there is one. -/
theorem turn_holds {w : Writers} {names : List String} (hw : w.Sharing names log)
    (h : Holds r log k current older v) (hn : n ≤ log.file.file) {turn : Turn} {rest : List Turn}
    (hroom : k = log.maxFiles ∨
      ((sent names (turn :: rest)).foldl (stack log.maxBytes) (current :: older)).length ≤ k + 1) :
    ∃ w' names' log' v' current' older', (w.turn turn).run.run v = (.ok w', v') ∧
      (sent names' rest).foldl (stack log.maxBytes) (current' :: older') =
        (sent names (turn :: rest)).foldl (stack log.maxBytes) (current :: older) ∧
      w'.Sharing names' log' ∧ Holds r log' k current' older' v' ∧ n ≤ log'.file.file ∧
      Beside r k n v v' ∧ log' = { log with file := log'.file, written := log'.written } := by
  cases turn with
  | clone source name =>
    by_cases hsource : source ∈ names
    · have hpoint : (w.point name 0).Sharing (name :: names) log := by
        refine ⟨hw.logs, fun name' => ?_⟩
        rw [w.index?_point, hw.handles]
        by_cases hname : name' = name <;> simp [hname]
      refine ⟨w.point name 0, name :: names, log, v, current, older, ?_, ?_, hpoint, h, hn,
        .refl r k n v, rfl⟩
      · rw [Writers.turn, hw.handles, if_pos hsource]
        rfl
      · rw [sent, if_pos hsource]
    · refine ⟨w, names, log, v, current, older, ?_, ?_, hw, h, hn, .refl r k n v, rfl⟩
      · rw [Writers.turn, hw.handles, if_neg hsource]
        rfl
      · rw [sent, if_neg hsource]
  | close name =>
    have hclose : (w.close name).Sharing (names.filter (· ≠ name)) log := by
      refine ⟨hw.logs, fun name' => ?_⟩
      rw [w.index?_close, hw.handles]
      by_cases hname : name' = name <;> simp [hname]
    exact ⟨w.close name, _, log, v, current, older, rfl, rfl, hclose, h, hn, .refl r k n v, rfl⟩
  | write name record =>
    by_cases hname : name ∈ names
    · rw [sent, if_pos hname, List.foldl_cons] at hroom ⊢
      have hlength := length_le_foldl_stack log.maxBytes (sent names rest)
        (stack log.maxBytes (current :: older) record)
      obtain ⟨log1, v1, current1, older1, hrun, hstack, hholds, hbeside, hn1, hlog⟩ :=
        h.write hn (hroom.imp_right (Nat.le_trans hlength))
      obtain ⟨w1, hwrite, hw1⟩ := hw.write hname hrun
      exact ⟨w1, names, log1, v1, current1, older1, hwrite, by rw [hstack], hw1, hholds, hn1,
        hbeside, hlog⟩
    · refine ⟨w, names, log, v, current, older, hw.write_absent hname record v, ?_, hw, h, hn,
        .refl r k n v, rfl⟩
      rw [sent, if_neg hname]

/-- Turn after turn, the records that are sent are stacked. -/
theorem turns_hold {w : Writers} {names : List String} (hw : w.Sharing names log)
    (h : Holds r log k current older v) (hn : n ≤ log.file.file) (turns : List Turn)
    (hroom : k = log.maxFiles ∨
      ((sent names turns).foldl (stack log.maxBytes) (current :: older)).length ≤ k + 1) :
    ∃ w' log' v' current' older', (w.turns turns).run.run v = (.ok w', v') ∧
      current' :: older' = (sent names turns).foldl (stack log.maxBytes) (current :: older) ∧
      Holds r log' k current' older' v' ∧ Beside r k n v v' ∧
      log' = { log with file := log'.file, written := log'.written } := by
  -- The handles that there are vary, since they decide which records are sent from here on.
  induction turns generalizing w names log current older v with
  | nil => exact ⟨w, log, v, current, older, rfl, rfl, h, .refl r k n v, rfl⟩
  | cons turn rest ih =>
    obtain ⟨w1, names1, log1, v1, current1, older1, hrun, hstack, hw1, hholds, hn1, hbeside,
      hlog⟩ := turn_holds hw h hn hroom
    have hbytes : log1.maxBytes = log.maxBytes := by rw [hlog]
    have hfiles : log1.maxFiles = log.maxFiles := by rw [hlog]
    rw [← hstack, ← hbytes, ← hfiles] at hroom
    obtain ⟨w2, log2, v2, current2, older2, hrest, hstack2, hholds2, hbeside2, hlog2⟩ :=
      ih hw1 hholds hn1 hroom
    refine ⟨w2, log2, v2, current2, older2, ?_, ?_, hholds2, hbeside.trans hbeside2, ?_⟩
    · rw [Writers.turns, FileAction.run_bind_ok hrun]
      exact hrest
    · rw [hstack2, hbytes]
      exact hstack
    · rw [hlog] at hlog2
      exact hlog2

/-! ## From an empty directory -/

/-- A log as it is opened anew. -/
def opened (dir appName : String) (maxBytes maxFiles : Nat) (file : FileId) : RollingLog :=
  ⟨dir, appName, maxBytes, maxFiles, ⟨file, true, 0⟩, 0⟩

/-- A log that is opened where none of its files is holds an empty segment. -/
theorem start_holds {v0 : Volume} {dir appName : String} (maxBytes : Nat) {maxFiles : Nat}
    (hdir : (FileAction.makeDirectoryAll dir).run.run v = (.ok (), v0))
    (h : r.Spans dir appName maxFiles k v0) (hfree : ∀ i ≤ k, v0.node? (r.place i) = none) :
    ∃ v1, (RollingLog.start dir appName maxBytes maxFiles).run.run v =
        (.ok (opened dir appName maxBytes maxFiles v0.contents.size), v1) ∧
      Holds r (opened dir appName maxBytes maxFiles v0.contents.size) k [] [] v1 ∧
      Beside r k v0.contents.size v0 v1 := by
  obtain ⟨v1, happend, hapart, hcontents, hnodes⟩ := append_run h.reached (hfree 0 (Nat.zero_le _))
  have hempty := Volume.content_push_new hcontents
  refine ⟨v1, ?_, ⟨h.of_apart hapart, ?_, ?_, ?_, Or.inl rfl, rfl⟩, ⟨hapart, ?_⟩⟩
  · unfold RollingLog.start
    rw [FileAction.run_bind_ok hdir, FileAction.run_bind_ok happend]
    show (Except.ok (RollingLog.mk _ _ _ _ _ (v1.content v0.contents.size).size), v1) = _
    rw [hempty]
    rfl
  · intro i hi
    cases i with
    | zero =>
      refine ⟨v0.contents.size, by rw [hnodes, if_pos rfl], ?_, hempty⟩
      rw [hcontents, Array.size_push]
      exact Nat.lt_succ_self _
    | succ i =>
      show v1.node? _ = none
      rw [hnodes, if_neg (by omega)]
      exact hfree (i + 1) hi
  · rw [hnodes, if_pos rfl]
    rfl
  · intro i hi hnode
    by_cases hi0 : i = 0
    · exact hi0
    · rw [hnodes, if_neg hi0, hfree i hi] at hnode
      cases hnode
  · intro id hid
    exact Volume.content_push v0 hid hcontents

/-- A path that leads somewhere leads to the active file of a log. -/
theorem exists_active {dir appName : String}
    (h : (v.locate (activePath dir appName)).isOk = true) :
    ∃ r : Rack, v.locate (activePath dir appName) = .ok ⟨r.place 0, false⟩ := by
  cases ht : v.locate (activePath dir appName) with
  | error e =>
    rw [ht] at h
    cases h
  | ok t =>
    obtain ⟨r, rfl⟩ := exists_rack ht
    exact ⟨r, rfl⟩

/-- No path leads to a directory where nothing stands. -/
theorem isDirectory_of_exists? {path : String} (h : v.exists? path = false) :
    v.isDirectory path = false := by
  unfold Volume.exists? at h
  unfold Volume.isDirectory
  rw [Option.isSome_eq_false_iff, Option.isNone_iff_eq_none] at h
  rw [h]
  rfl

/-- What a log keeps of the records that are sent through it and its clones, if it is opened where
none of its files is: each file holds one segment, the active file the last one, and there are no
more files than segments. It is enough that the system takes the names of as many files as there are
segments. Nothing else in the volume changes; no path leads below a file, so what stands neither at
nor below the places of the log is all the rest. The segments hold all records in order, and one
that is larger than allowed consists of a single record, apart from empty ones. -/
theorem files_hold_segments {v v0 : Volume} {dir appName : String} {maxFiles : Nat}
    (name : String) (maxBytes : Nat) (turns : List Turn)
    (hdir : (FileAction.makeDirectoryAll dir).run.run v = (.ok (), v0))
    (hnames : ∀ i ≤ maxFiles, i < (segments maxBytes (sent [name] turns)).length →
      (v0.locate (filePath dir appName i)).isOk = true)
    (hfree : ∀ i ≤ maxFiles, v0.exists? (filePath dir appName i) = false) :
    ∃ w v', (do
        let w ← Writers.start {} name dir appName maxBytes maxFiles
        w.turns turns).run.run v = (.ok w, v') ∧
      (∀ i ≤ maxFiles, match (segments maxBytes (sent [name] turns))[i]? with
        | some segment =>
          (FileAction.readAll (filePath dir appName i)).run.run v' = (.ok (joined segment), v')
        | none => v'.exists? (filePath dir appName i) = false) ∧
      (∀ q, (∀ i ≤ maxFiles, ∀ t, v0.locate (filePath dir appName i) = .ok t → ¬ t.place <+: q) →
        v'.node? q = v0.node? q) ∧
      (∀ id < v0.contents.size, v'.content id = v0.content id) ∧
      (segments maxBytes (sent [name] turns)).reverse.flatten = sent [name] turns ∧
      ∀ segment ∈ segments maxBytes (sent [name] turns), Fitting maxBytes segment := by
  have hsome : 0 < (segments maxBytes (sent [name] turns)).length :=
    length_le_foldl_stack maxBytes (sent [name] turns) [[]]
  obtain ⟨r, hactive⟩ := exists_active (hnames 0 (Nat.zero_le _) hsome)
  obtain ⟨k, hspans, -⟩ := exists_spans hactive fun i hi => isDirectory_of_exists? (hfree i hi)
  have hplaces : ∀ i ≤ k, v0.node? (r.place i) = none := by
    intro i hi
    have hnone := hspans.reached.exists? hi
    rw [hfree i (Nat.le_trans hi hspans.le)] at hnone
    exact Option.isNone_iff_eq_none.mp (by simpa using hnone.symm)
  -- A segment without a file would need the first name that is refused.
  have hroom : k = maxFiles ∨ (segments maxBytes (sent [name] turns)).length ≤ k + 1 := by
    rw [← Nat.not_lt, or_iff_not_imp_left]
    intro hk hlength
    have hle := hspans.le
    exact hspans.last (k + 1) (Nat.lt_succ_self k) (by omega)
      ((isOk_locate_iff hactive (k + 1)).mp (hnames (k + 1) (by omega) hlength))
  obtain ⟨v1, hstart, hholds, hbeside⟩ := start_holds maxBytes hdir hspans hplaces
  generalize hlog : opened dir appName maxBytes maxFiles v0.contents.size = log at hstart hholds
  have hsharing : (Writers.point { logs := #[log] } name 0).Sharing [name] log := by
    refine ⟨rfl, fun name' => ?_⟩
    rw [Writers.index?_point]
    by_cases hname : name' = name <;> simp [hname, Writers.index?]
  obtain ⟨w, log2, v2, current, older, hturns, hstack, hholds2, hbeside2, hlog2⟩ :=
    turns_hold hsharing hholds (Nat.le_of_eq (by rw [← hlog])) turns (by
      rw [← hlog]
      exact hroom)
  rw [← hlog] at hstack hlog2
  have hsegments : segments maxBytes (sent [name] turns) = current :: older := hstack.symm
  have hall := hbeside.trans hbeside2
  refine ⟨w, v2, ?_, ?_, ?_, hall.contents, segments_flatten _ _, segments_fitting _ _⟩
  · have hopen : (Writers.start {} name dir appName maxBytes maxFiles).run.run v =
        (.ok (Writers.point { logs := #[log] } name 0), v1) := FileAction.run_bind_ok hstart
    rw [FileAction.run_bind_ok hopen]
    exact hturns
  · intro i hi
    have hmax : log2.maxFiles = maxFiles := congrArg RollingLog.maxFiles hlog2
    rw [hsegments] at hroom ⊢
    have hread := hholds2.read (Nat.le_trans hi (Nat.le_of_eq hmax.symm)) (by rwa [hmax])
    rw [hlog2] at hread
    exact hread
  · intro q hq
    refine hall.apart q fun i hi => ?_
    exact hq i (Nat.le_trans hi hspans.le) _ (hspans.reached.locate i hi)

/-- Two handles write to one log, which is set aside once. -/
theorem files_hold_segments_of_clone :
    let turns : List Turn := [.write "a" "xx".toUTF8, .clone "a" "b", .write "b" "yyy".toUTF8,
      .write "a" "z".toUTF8]
    ∃ w v', (do
        let w ← Writers.start {} "a" "logs" "App" 4 1
        w.turns turns).run.run Volume.empty = (.ok w, v') ∧
      (FileAction.readAll (filePath "logs" "App" 0)).run.run v' = (.ok "yyyz".toUTF8, v') ∧
      (FileAction.readAll (filePath "logs" "App" 1)).run.run v' = (.ok "xx".toUTF8, v') := by
  intro turns
  have hok : ((FileAction.makeDirectoryAll "logs").run.run Volume.empty).1.isOk = true := by
    decide +kernel
  have hnames : ∀ i ≤ 1, (((FileAction.makeDirectoryAll "logs").run.run Volume.empty).2.locate
      (filePath "logs" "App" i)).isOk = true := by
    decide +kernel
  have hfree : ∀ i ≤ 1, ((FileAction.makeDirectoryAll "logs").run.run Volume.empty).2.exists?
      (filePath "logs" "App" i) = false := by
    decide +kernel
  have hsegments : segments 4 (sent ["a"] turns) =
      [["yyy".toUTF8, "z".toUTF8], ["xx".toUTF8]] := by
    decide +kernel
  rcases hdir : (FileAction.makeDirectoryAll "logs").run.run Volume.empty with ⟨e | u, v0⟩
  · rw [hdir] at hok
    cases hok
  rw [hdir] at hnames hfree
  obtain ⟨w, v', hrun, hfiles, -⟩ :=
    files_hold_segments "a" 4 turns hdir (fun i hi _ => hnames i hi) hfree
  rw [hsegments] at hfiles
  have hactive := hfiles 0 (by omega)
  have hyoungest := hfiles 1 (by omega)
  have hjoined : joined ["yyy".toUTF8, "z".toUTF8] = "yyyz".toUTF8 := by decide +kernel
  have hsingle : joined ["xx".toUTF8] = "xx".toUTF8 := joined_singleton _
  refine ⟨w, v', hrun, ?_, ?_⟩
  · rw [← hjoined]
    exact hactive
  · rw [← hsingle]
    exact hyoungest

end Pinboard.Log
