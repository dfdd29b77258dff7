import Pinboard.Proofs.Restarts

/-!
# Rotation as a shift

A rotation gives each file of a log the next number, up to the last one, and leaves everything else
alone, whichever of the numbers are taken. It works exactly where the system takes the new names of
the files that are there: names grow with their numbers, and beyond a certain length they are
refused. Nothing is lost on the way but the file that is dropped, for no file is ever renamed to a
name that is taken (`shiftWith_renameFree`).
-/

namespace Pinboard.Files

/-- A name in the working directory. -/
theorem Path.ofText_here {name : String} (hne : name ≠ "") (hslash : '/' ∉ name.toList) :
    Path.ofText ("./" ++ name) = ⟨false, [".", name], false⟩ := by
  have hlist : name.toList ≠ [] := fun h => hne (String.toList_eq_nil_iff.mp h)
  have hfields : Text.fields '/' ('.' :: '/' :: name.toList) = [['.'], name.toList] := by
    rw [Text.fields, Text.fields, fields_of_not_mem hslash]
    rfl
  have htrailing : ('/' :: name.toList).getLast? ≠ some '/' := by
    obtain ⟨c, cs, hcs⟩ := List.exists_cons_of_ne_nil hlist
    rw [hcs, List.getLast?_cons_cons, ← hcs]
    exact fun h => hslash (List.mem_of_getLast? h)
  unfold Path.ofText
  rw [show ("./" ++ name).toList = '.' :: '/' :: name.toList from String.toList_append]
  simp [hfields, htrailing, hlist]

theorem Volume.exists?_of_find? {v : Volume} {path : String} {n : Node}
    (h : v.find? path = some n) : v.exists? path = true := by
  unfold exists?
  rw [h]
  rfl

namespace FileAction

/-- Renames, unless something has the new name. -/
def renameFree (source goal : String) : FileAction Unit := do
  if (← get).exists? goal then throw .alreadyExists
  rename source goal

variable {v : Volume} {source goal : String}

theorem renameFree_run (hfree : v.exists? goal = false) :
    (renameFree source goal).run.run v = (rename source goal).run.run v := by
  unfold renameFree
  rw [run_get_bind, hfree]
  rfl

/-- Nothing that is there can be given a name that is too long. -/
theorem rename_tooLong {s : Place} {n : Node} (hs : v.locate source = .ok ⟨s, false⟩)
    (hnode : v.node? s = some n) (ht : v.locate goal = .error .nameTooLong) :
    (rename source goal).run.run v = (.error .nameTooLong, v) := by
  unfold rename
  rw [run_bind_ok (approach_ok hs)]
  cases hway : v.approach goal with
  | error e =>
    have he : e = .nameTooLong := by
      unfold Volume.locate at ht
      rw [hway] at ht
      cases ht
      rfl
    have happroach : (approach goal).run.run v = (.error .nameTooLong, v) := by
      unfold approach
      rw [run_get_bind, hway, he]
      rfl
    exact run_bind_error happroach
  | ok t =>
    have happroach : (approach goal).run.run v = (.ok (), v) := by
      unfold approach
      rw [run_get_bind, hway]
      rfl
    have htarget : (target goal).run.run v = (.error .nameTooLong, v) := by
      rw [target_run, ht]
      rfl
    rw [run_bind_ok happroach, run_bind_ok (target_ok hs), hnode]
    exact run_bind_error htarget

end FileAction

end Pinboard.Files

namespace Pinboard.Log

open Files

/-! ## Names that the system takes -/

/-- A digit is one byte. -/
theorem utf8ByteSize_digits {cs : List Char} (h : ∀ c ∈ cs, c.isDigit = true) :
    (String.ofList cs).utf8ByteSize = cs.length := by
  induction cs with
  | nil => rfl
  | cons c cs ih =>
    obtain ⟨hc, hcs⟩ := List.forall_mem_cons.mp h
    have hsize : c.utf8Size = 1 := by
      simp only [Char.isDigit, Bool.and_eq_true, decide_eq_true_eq] at hc
      exact if_pos (UInt32.le_trans hc.2 (by decide))
    rw [String.ofList_cons, String.utf8ByteSize_append, String.utf8ByteSize_singleton, ih hcs,
      hsize, List.length_cons, Nat.add_comm]

theorem utf8ByteSize_ending (i : Nat) : (ending i).utf8ByteSize =
    if i = 0 then 4 else 5 + (Nat.toDigits 10 i).length := by
  have hdigits : ∀ c ∈ Nat.toDigits 10 i, c.isDigit = true :=
    fun c hc => Nat.isDigit_of_mem_toDigits (by decide) (by decide) hc
  unfold ending
  by_cases hi : i = 0
  · rw [if_pos hi, if_pos hi]
    rfl
  · rw [if_neg hi, if_neg hi, String.utf8ByteSize_append, Nat.repr_eq_ofList_toDigits,
      utf8ByteSize_digits hdigits]
    rfl

/-- Names grow with their numbers. -/
theorem utf8ByteSize_ending_mono {i j : Nat} (h : i ≤ j) :
    (ending i).utf8ByteSize ≤ (ending j).utf8ByteSize := by
  rw [utf8ByteSize_ending, utf8ByteSize_ending]
  by_cases hi : i = 0
  · rw [if_pos hi]
    split <;> omega
  · have hj : j ≠ 0 := by omega
    have hpos : 0 < (Nat.toDigits 10 j).length := by
      rw [List.length_pos_iff]
      exact Nat.toDigits_ne_nil
    have hlt : j < 10 ^ (Nat.toDigits 10 j).length :=
      (Nat.length_toDigits_le_iff (by decide) hpos).mp (Nat.le_refl _)
    have hle : (Nat.toDigits 10 i).length ≤ (Nat.toDigits 10 j).length :=
      (Nat.length_toDigits_le_iff (by decide) hpos).mpr (Nat.lt_of_le_of_lt h hlt)
    rw [if_neg hi, if_neg hj]
    omega

/-- The system takes the path of a log's file, and its name. -/
def Rack.Fits (r : Rack) (dir appName : String) (i : Nat) : Prop :=
  (filePath dir appName i).utf8ByteSize ≤ Volume.longestPath ∧
    (r.stem ++ ending i).utf8ByteSize ≤ Volume.longestName

instance (r : Rack) (dir appName : String) (i : Nat) : Decidable (r.Fits dir appName i) :=
  inferInstanceAs (Decidable (_ ∧ _))

section Fits

variable {r : Rack} {dir appName : String} {i j n : Nat} {v : Volume}

theorem Rack.Fits.mono (h : r.Fits dir appName j) (hij : i ≤ j) : r.Fits dir appName i := by
  have hmono := utf8ByteSize_ending_mono hij
  obtain ⟨hpath, hname⟩ := h
  rw [filePath_eq, String.utf8ByteSize_append] at hpath
  rw [String.utf8ByteSize_append] at hname
  refine ⟨?_, ?_⟩
  · rw [filePath_eq, String.utf8ByteSize_append]
    omega
  · rw [String.utf8ByteSize_append]
    omega

/-- Where the active file is found, so are the others, if only their names are taken. -/
theorem locate_of_active (hactive : v.locate (activePath dir appName) = .ok ⟨r.place 0, false⟩)
    (i : Nat) : v.locate (filePath dir appName i) =
      if r.Fits dir appName i then .ok ⟨r.place i, false⟩ else .error .nameTooLong := by
  obtain ⟨absolute, front, stem, hpath⟩ := exists_names dir appName
  obtain ⟨d, hwalk, hplace⟩ := locate_filePath (hpath 0) hactive
  obtain rfl : r = ⟨d, stem⟩ := Rack.eq_of_place (congrArg Volume.Target.place hplace)
  obtain ⟨hdot, hup⟩ := name_ne_dots stem i
  have hzero : (filePath dir appName i).toList.contains '\x00' = false := by
    have happroach := (Volume.locate_eq_ok.mp hactive).1
    unfold Volume.approach at happroach
    dsimp only at happroach
    split at happroach
    · cases happroach
    rename_i hnot
    rw [List.contains_iff_mem, show activePath dir appName = filePath dir appName 0 from rfl,
      filePath_eq, String.toList_append, List.mem_append] at hnot
    rw [← Bool.not_eq_true, List.contains_iff_mem, filePath_eq, String.toList_append,
      List.mem_append]
    exact fun h => hnot (Or.inl (h.resolve_right (not_mem_ending (by decide) (by decide) i)))
  have hempty : filePath dir appName i ≠ "" := by
    rw [filePath_eq, ne_eq, String.append_eq_empty_iff]
    exact fun h => ending_ne_empty i h.2
  unfold Volume.locate Volume.approach Volume.Target.nameLength
  simp only [hpath, hzero, hempty, hwalk, List.getLast?_concat, List.dropLast_concat, if_false,
    hdot, hup, Bool.false_eq_true]
  by_cases hlong : (filePath dir appName i).utf8ByteSize > Volume.longestPath
  · have hnot : ¬ (Rack.mk d stem).Fits dir appName i := fun h => Nat.not_le.mpr hlong h.1
    rw [if_pos hlong, if_neg hnot]
  rw [if_neg hlong]
  dsimp only
  rw [List.getLast?_concat, Option.getD_some]
  by_cases hname : (stem ++ ending i).utf8ByteSize > Volume.longestName
  · have hnot : ¬ (Rack.mk d stem).Fits dir appName i := fun h => Nat.not_le.mpr hname h.2
    rw [if_pos hname, if_neg hnot]
  · have hfits : (Rack.mk d stem).Fits dir appName i :=
      ⟨Nat.not_lt.mp hlong, Nat.not_lt.mp hname⟩
    rw [if_neg hname, if_pos hfits]
    rfl

theorem isOk_locate_iff (hactive : v.locate (activePath dir appName) = .ok ⟨r.place 0, false⟩)
    (i : Nat) : (v.locate (filePath dir appName i)).isOk = true ↔ r.Fits dir appName i := by
  rw [locate_of_active hactive]
  split <;> simp [Except.isOk, Except.toBool, *]

theorem Rack.Led.find?_filePath (h : r.Led dir appName n v) (i : Nat) :
    v.find? (filePath dir appName i) =
      if r.Fits dir appName i then v.node? (r.place i) else none := by
  by_cases hfits : r.Fits dir appName i
  · have hlocate := locate_of_active h.active i
    rw [if_pos hfits] at hlocate
    rw [if_pos hfits, Volume.find?_of_locate hlocate]
  · have hlocate := locate_of_active h.active i
    rw [if_neg hfits] at hlocate
    unfold Volume.find?
    rw [if_neg hfits, hlocate]

/-- The files whose names are taken can be reached. -/
theorem Rack.Led.reached (h : r.Led dir appName n v) (hfits : r.Fits dir appName n) :
    r.Reached dir appName n v := by
  refine ⟨h.passes, fun i hi => ?_⟩
  rw [locate_of_active h.active, if_pos (hfits.mono hi)]

/-- Up to any number there is a last one whose name is taken. -/
theorem exists_last_fit (h : r.Fits dir appName 0) (n : Nat) :
    ∃ k ≤ n, r.Fits dir appName k ∧ ∀ i, k < i → i ≤ n → ¬ r.Fits dir appName i := by
  induction n with
  | zero => exact ⟨0, Nat.le_refl 0, h, fun i hlow hhigh => by omega⟩
  | succ n ih =>
    by_cases hnext : r.Fits dir appName (n + 1)
    · exact ⟨n + 1, Nat.le_refl _, hnext, fun i hlow hhigh => by omega⟩
    · obtain ⟨k, hk, hfits, hlast⟩ := ih
      refine ⟨k, by omega, hfits, fun i hlow hhigh => ?_⟩
      by_cases hi : i = n + 1
      · rw [hi]
        exact hnext
      · exact hlast i hlow (by omega)

/-- The system takes the names of a log's files up to a number `k`, and none beyond it. -/
structure Rack.Spans (r : Rack) (dir appName : String) (n k : Nat) (v : Volume) : Prop where
  /-- The way to the files is known. -/
  led : r.Led dir appName k v
  /-- The last of the names is taken, and so are all before it. -/
  fits : r.Fits dir appName k
  /-- There are no more of them than the log may have. -/
  le : k ≤ n
  /-- Beyond it there are none that the log may have. -/
  last : ∀ i, k < i → i ≤ n → ¬ r.Fits dir appName i

theorem Rack.Spans.reached {k : Nat} (h : r.Spans dir appName n k v) : r.Reached dir appName k v :=
  h.led.reached h.fits

theorem Rack.Spans.of_apart {k : Nat} {v' : Volume} (h : r.Spans dir appName n k v)
    (ha : r.Apart k v v') : r.Spans dir appName n k v' :=
  ⟨h.led.of_apart ha, h.fits, h.le, h.last⟩

/-- No file has a name that is not taken. -/
theorem Rack.Spans.exists?_beyond {k : Nat} (h : r.Spans dir appName n k v) (hlow : k < i)
    (hhigh : i ≤ n) : v.exists? (filePath dir appName i) = false := by
  unfold Volume.exists?
  rw [h.led.find?_filePath, if_neg (h.last i hlow hhigh)]
  rfl

/-- With no directory at its paths, the names of a log's files are taken up to some number. -/
theorem exists_spans (hactive : v.locate (activePath dir appName) = .ok ⟨r.place 0, false⟩)
    (hplain : ∀ i ≤ n, v.isDirectory (filePath dir appName i) = false) :
    ∃ k, r.Spans dir appName n k v ∧ r.Plain k v := by
  have hzero : r.Fits dir appName 0 := by
    have hplace := locate_of_active hactive 0
    by_contra hnot
    rw [if_neg hnot] at hplace
    cases hplace.symm.trans hactive
  obtain ⟨k, hle, hfits, hlast⟩ := exists_last_fit hzero n
  have hplain' : r.Plain k v := by
    intro i hi hdir
    have hlocate := locate_of_active hactive i
    rw [if_pos (hfits.mono hi)] at hlocate
    have hfile := hplain i (by omega)
    unfold Volume.isDirectory at hfile
    rw [Volume.find?_of_locate hlocate, hdir] at hfile
    cases hfile
  exact ⟨k, ⟨led_of_active hactive hplain', hfits, hle, hlast⟩, hplain'⟩

end Fits

/-! ## The working directory -/

theorem activePath_here {appName : String} (hslash : '/' ∉ (appName ++ ending 0).toList) :
    activePath "." appName = "./" ++ (appName ++ ending 0) := by
  show join "." (appName ++ ending 0) = _
  unfold join
  rw [if_neg fun h => hslash (List.mem_of_head? h), if_neg (by decide), if_neg (by decide)]
  rfl

/-- In the working directory a file is found by its name. -/
theorem locate_active_here {appName : String} {v : Volume}
    (hhome : v.node? home = some .directory)
    (hnames : ∀ c ∈ appName.toList, c ≠ '/' ∧ c ≠ '\x00')
    (hsize : appName.utf8ByteSize + 4 ≤ Volume.longestName) :
    v.locate (activePath "." appName) = .ok ⟨(Rack.mk home appName).place 0, false⟩ := by
  have hslash : '/' ∉ (appName ++ ending 0).toList := by
    rw [String.toList_append, List.mem_append]
    exact fun h => h.elim (fun h => (hnames _ h).1 rfl) (slash_not_mem_ending 0)
  have hempty : appName ++ ending 0 ≠ "" := by
    rw [ne_eq, String.append_eq_empty_iff]
    exact fun h => ending_ne_empty 0 h.2
  have hpath := activePath_here hslash
  have hzero : (activePath "." appName).toList.contains '\x00' = false := by
    rw [← Bool.not_eq_true, List.contains_iff_mem, hpath, String.toList_append,
      String.toList_append, List.mem_append, List.mem_append]
    exact fun h => h.elim (by decide)
      fun h => h.elim (fun h => (hnames _ h).2 rfl) (not_mem_ending (by decide) (by decide) 0)
  have hnonempty : activePath "." appName ≠ "" := by
    rw [hpath, ne_eq, String.append_eq_empty_iff]
    exact fun h => absurd h.1 (by decide)
  have hname : (appName ++ ending 0).utf8ByteSize ≤ Volume.longestName := by
    rw [String.utf8ByteSize_append]
    exact hsize
  have hshort : ¬ (activePath "." appName).utf8ByteSize > Volume.longestPath := by
    rw [hpath, String.utf8ByteSize_append]
    have hprefix : "./".utf8ByteSize = 2 := by decide
    unfold Volume.longestPath
    unfold Volume.longestName at hname
    omega
  have hwalk : v.walk home ["."] = .ok home := by
    rw [Volume.walk_cons, if_neg (by decide), show Volume.next home "." = home from rfl, hhome]
    rfl
  obtain ⟨hdot, hup⟩ := name_ne_dots appName 0
  have happroach : v.approach (activePath "." appName) =
      .ok ⟨(Rack.mk home appName).place 0, false⟩ := by
    unfold Volume.approach
    rw [hzero, if_neg Bool.false_ne_true, if_neg hnonempty, if_neg hshort, hpath,
      Path.ofText_here hempty hslash]
    simp only [List.getLast?_cons_cons, List.getLast?_singleton, List.dropLast, if_false,
      Bool.false_eq_true, hwalk, hdot, hup]
    rfl
  refine Volume.locate_eq_ok.mpr ⟨happroach, ?_⟩
  unfold Volume.Target.nameLength Rack.place
  rw [List.getLast?_concat]
  exact hname

/-! ## Other ways of renaming -/

namespace RollingLog

/-- Moves each file up to a number one place further, in some way of renaming. -/
def shiftWith (rename : String → String → FileAction Unit) (dir appName : String) :
    Nat → FileAction Unit
  | 0 => pure ()
  | index + 1 => do
    let source := rotatedPath dir appName (index + 1)
    if (← get).exists? source then rename source (rotatedPath dir appName (index + 2))
    shiftWith rename dir appName index

/-- Drops the file with the last number, and moves those before it, in some way of renaming. -/
def makeRoomWith (rename : String → String → FileAction Unit) (dir appName : String)
    (last : Nat) : FileAction Unit := do
  let oldest := rotatedPath dir appName last
  if (← get).exists? oldest then FileAction.removeFile oldest
  shiftWith rename dir appName (last - 1)

/-- A rotation in some way of renaming. -/
def rotateWith (rename : String → String → FileAction Unit) (log : RollingLog) :
    FileAction RollingLog := do
  if log.maxFiles = 0 then log.rotate
  else
    makeRoomWith rename log.dir log.appName log.maxFiles
    rename log.path (rotatedPath log.dir log.appName 1)
    let file ← OpenFile.append log.path
    pure { log with file := file, written := 0 }

theorem shiftWith_rename (dir appName : String) (n : Nat) :
    shiftWith FileAction.rename dir appName n = shift dir appName n := by
  induction n with
  | zero => rfl
  | succ n ih =>
    unfold shiftWith shift
    rw [ih]

end RollingLog

section Ways

open RollingLog

variable {rename : String → String → FileAction Unit} {r : Rack} {dir appName : String}
  {k m n : Nat} {v : Volume}

theorem shiftWith_succ (rename : String → String → FileAction Unit) (dir appName : String)
    (n : Nat) (v : Volume) :
    (shiftWith rename dir appName (n + 1)).run.run v =
      ((if v.exists? (rotatedPath dir appName (n + 1)) then
          rename (rotatedPath dir appName (n + 1)) (rotatedPath dir appName (n + 2))
        else pure ()) >>= fun _ => shiftWith rename dir appName n).run.run v := by
  rw [shiftWith, FileAction.run_get_bind]
  split <;> rfl

theorem makeRoomWith_eq (rename : String → String → FileAction Unit) (dir appName : String)
    (n : Nat) (v : Volume) :
    (makeRoomWith rename dir appName (n + 1)).run.run v =
      ((if v.exists? (rotatedPath dir appName (n + 1)) then
          FileAction.removeFile (rotatedPath dir appName (n + 1)) else pure ()) >>= fun _ =>
        shiftWith rename dir appName n).run.run v := by
  rw [makeRoomWith, FileAction.run_get_bind]
  dsimp only [Nat.add_sub_cancel]
  split <;> rfl

/-- Numbers that nothing has are passed over. -/
theorem shiftWith_absent (hkn : k ≤ n)
    (hgone : ∀ i, k < i → i ≤ n → v.exists? (rotatedPath dir appName i) = false) :
    (shiftWith rename dir appName n).run.run v = (shiftWith rename dir appName k).run.run v := by
  induction n with
  | zero => rw [Nat.le_zero.mp hkn]
  | succ n ih =>
    by_cases hk : k = n + 1
    · rw [hk]
    · rw [shiftWith_succ, hgone (n + 1) (by omega) (Nat.le_refl _)]
      exact ih (by omega) fun i hlow hhigh => hgone i hlow (by omega)

theorem makeRoomWith_absent (hkn : k ≤ n) (hgone : k < n → ∀ i, k < i → i ≤ n + 1 →
      v.exists? (rotatedPath dir appName i) = false) :
    (makeRoomWith rename dir appName (n + 1)).run.run v =
      (makeRoomWith rename dir appName (k + 1)).run.run v := by
  by_cases hk : k = n
  · rw [hk]
  have hgone := hgone (by omega)
  rw [makeRoomWith_eq, makeRoomWith_eq, hgone (n + 1) (by omega) (by omega),
    hgone (k + 1) (by omega) (by omega)]
  exact shiftWith_absent hkn fun i hlow hhigh => hgone i hlow (by omega)

/-- Files are only ever moved to numbers that are free. -/
theorem shiftWith_renameFree (h : r.Reached dir appName m v) (hn : n + 1 ≤ m)
    (hfree : v.node? (r.place (n + 1)) = none) :
    (shiftWith FileAction.renameFree dir appName n).run.run v =
      (RollingLog.shift dir appName n).run.run v := by
  -- What a file leaves behind is free for the next one.
  induction n generalizing v with
  | zero => rfl
  | succ n ih =>
    rw [shiftWith_succ, shift_succ, h.exists?_rotated (by omega) (by omega)]
    cases hnode : v.node? (r.place (n + 1)) with
    | none => exact ih h (by omega) hnode
    | some node =>
      have hsome : (v.node? (r.place (n + 1))).isSome := by
        rw [hnode]
        rfl
      have hgoal : v.exists? (rotatedPath dir appName (n + 2)) = false := by
        rw [h.exists?_rotated hn (by omega), hfree]
        rfl
      have hmove : (FileAction.rename (rotatedPath dir appName (n + 1))
          (rotatedPath dir appName (n + 2))).run.run v = _ :=
        h.rename (i := n + 1) (j := n + 2) (by omega) hn (by omega) hsome hfree
      have hmoveFree := (FileAction.renameFree_run hgoal).trans hmove
      have hempty : (v.moveNode (r.place (n + 1)) (r.place (n + 2))).node? (r.place (n + 1)) =
          none := by
        rw [Rack.node?_moveNode_place (by omega) hfree, if_neg (by omega), if_pos rfl]
      have hmoved : r.Apart m v (v.moveNode (r.place (n + 1)) (r.place (n + 2))) :=
        Rack.apart_moveNode (by omega) hn
      rw [if_pos (show (some node).isSome = true from rfl),
        if_pos (show (some node).isSome = true from rfl), FileAction.run_bind_ok hmoveFree,
        FileAction.run_bind_ok hmove]
      exact ih (h.of_apart hmoved) (by omega) hempty

theorem makeRoomWith_renameFree (h : r.Reached dir appName (k + 1) v)
    (holdest : v.node? (r.place (k + 1)) ≠ some .directory) :
    (makeRoomWith FileAction.renameFree dir appName (k + 1)).run.run v =
      (makeRoomWith FileAction.rename dir appName (k + 1)).run.run v := by
  obtain ⟨v1, hdrop, hapart, -, hnodes⟩ := drop_run h (by omega) holdest
  have hfree : v1.node? (r.place (k + 1)) = none := by
    rw [hnodes, if_pos rfl]
  rw [makeRoomWith_eq, makeRoomWith_eq, FileAction.run_bind_ok hdrop, FileAction.run_bind_ok hdrop,
    shiftWith_rename]
  exact shiftWith_renameFree (h.of_apart hapart) (Nat.le_refl _) hfree

theorem rotateWith_eq {log : RollingLog} (hfiles : log.maxFiles ≠ 0)
    (rename : String → String → FileAction Unit) :
    log.rotateWith rename = makeRoomWith rename log.dir log.appName log.maxFiles >>= fun _ =>
      rename log.path (rotatedPath log.dir log.appName 1) >>= fun _ =>
      OpenFile.append log.path >>= fun file =>
      pure { log with file := file, written := 0 } := if_neg hfiles

theorem rotateWith_ok {log : RollingLog} (hfiles : log.maxFiles ≠ 0) {f : OpenFile}
    {v v1 v2 v3 : Volume}
    (hroom : (makeRoomWith rename log.dir log.appName log.maxFiles).run.run v = (.ok (), v1))
    (hmove : (rename log.path (rotatedPath log.dir log.appName 1)).run.run v1 = (.ok (), v2))
    (happend : (OpenFile.append log.path).run.run v2 = (.ok f, v3)) :
    (log.rotateWith rename).run.run v = (.ok { log with file := f, written := 0 }, v3) := by
  rw [rotateWith_eq hfiles, FileAction.run_bind_ok hroom, FileAction.run_bind_ok hmove,
    FileAction.run_bind_ok happend]
  rfl

/-- A rotation renames as files are renamed. -/
theorem rotateWith_rename (log : RollingLog) (v : Volume) :
    (log.rotateWith FileAction.rename).run.run v = log.rotate.run.run v := by
  obtain ⟨dir, appName, maxBytes, maxFiles, file, written⟩ := log
  cases maxFiles with
  | zero => rfl
  | succ m =>
    rw [rotateWith_eq (Nat.succ_ne_zero m), rotate_eq rfl, FileAction.run_bind, makeRoomWith_eq,
      shiftWith_rename, ← FileAction.run_bind, bind_assoc]

end Ways

/-! ## Rotation -/

section Rotation

open RollingLog

variable {r : Rack} {k m : Nat} {v : Volume} {log : RollingLog}

/-- What is known of a log whose rotation succeeds: up to a number `k + 1` the names of its files
are taken, and beyond that number, up to the last, there are none. -/
structure Rack.Ample (r : Rack) (log : RollingLog) (k m : Nat) (v : Volume) : Prop where
  /-- The files with those names can be reached. -/
  reached : r.Reached log.dir log.appName (k + 1) v
  /-- The active file is there. -/
  active : (v.node? (r.place 0)).isSome
  /-- What makes way for the others is no directory. -/
  oldest : v.node? (r.place (k + 1)) ≠ some .directory
  /-- No more files are kept than the log may keep. -/
  le : k ≤ m
  /-- Where names are refused, nothing has a number whose next name would be one of them. -/
  absent : k < m → ∀ i, k < i → i ≤ m + 1 →
    v.exists? (rotatedPath log.dir log.appName i) = false

/-- A rotation goes the same if no file may take the place of another. -/
theorem rotateWith_run (h : r.Ample log k m v) (hfiles : log.maxFiles = m + 1) :
    ∃ v', log.rotate.run.run v =
        (.ok { log with file := ⟨v.contents.size, true, 0⟩, written := 0 }, v') ∧
      (log.rotateWith FileAction.renameFree).run.run v =
        (.ok { log with file := ⟨v.contents.size, true, 0⟩, written := 0 }, v') ∧
      r.Apart (k + 1) v v' ∧ v'.contents = v.contents.push ByteArray.empty ∧
      ∀ i, v'.node? (r.place i) =
        rotated (k + 1) (.file v.contents.size) (fun i => v.node? (r.place i)) i := by
  obtain ⟨v1, v2, hdrop, hshift, hapart2, hcontents2, hnodes2⟩ := makeRoom_run h.reached h.oldest
  have hsome : (v2.node? (r.place 0)).isSome := by
    rw [hnodes2, shifted_outside _ (Or.inl rfl)]
    exact h.active
  have hfree : v2.node? (r.place 1) = none := by
    rw [hnodes2, shifted_one]
  have h2 := h.reached.of_apart hapart2
  obtain ⟨v3, v4, hmove, happend, hapart4, hcontents4, hnodes4⟩ := renew_run h2 hsome hfree
  rw [hcontents2] at happend hcontents4 hnodes4
  have hroom : (makeRoomWith FileAction.rename log.dir log.appName log.maxFiles).run.run v =
      (.ok (), v2) := by
    rw [hfiles, makeRoomWith_absent h.le h.absent, makeRoomWith_eq, FileAction.run_bind_ok hdrop,
      shiftWith_rename]
    exact hshift
  have hroomFree : (makeRoomWith FileAction.renameFree log.dir log.appName log.maxFiles).run.run v =
      (.ok (), v2) := by
    rw [hfiles] at hroom ⊢
    rw [makeRoomWith_absent h.le h.absent, makeRoomWith_renameFree h.reached h.oldest,
      ← makeRoomWith_absent h.le h.absent]
    exact hroom
  have hgoal : v2.exists? (rotatedPath log.dir log.appName 1) = false := by
    rw [h2.exists?_rotated (by omega) (by omega), hfree]
    rfl
  have hnonzero : log.maxFiles ≠ 0 := by omega
  refine ⟨v4, ?_, rotateWith_ok hnonzero hroomFree
    ((FileAction.renameFree_run hgoal).trans hmove) happend, hapart2.trans hapart4, hcontents4,
    rotated_of_shifted hnodes2 hnodes4⟩
  rw [← rotateWith_rename]
  exact rotateWith_ok hnonzero hroom hmove happend

/-- A rotation that comes upon a file whose next name is too long has not done anything yet. -/
theorem rotate_error_tooLong (hactive : v.locate log.path = .ok ⟨r.place 0, false⟩)
    (hfiles : log.maxFiles = m + 1) {i : Nat} (hi : i ≤ m)
    (hthere : v.exists? (filePath log.dir log.appName i) = true)
    (hlong : ¬ r.Fits log.dir log.appName (i + 1)) :
    log.rotate.run.run v = (.error .nameTooLong, v) := by
  have hgone : ∀ j, i < j → v.exists? (rotatedPath log.dir log.appName j) = false := by
    intro j hj
    have hlocate := locate_of_active hactive j
    rw [if_neg fun h => hlong (h.mono hj), filePath, if_neg (by omega)] at hlocate
    unfold Volume.exists? Volume.find?
    rw [hlocate]
    rfl
  have hgoal := locate_of_active hactive (i + 1)
  rw [if_neg hlong] at hgoal
  have hsource : v.locate (filePath log.dir log.appName i) = .ok ⟨r.place i, false⟩ := by
    have hlocate := locate_of_active hactive i
    split at hlocate
    · exact hlocate
    · unfold Volume.exists? Volume.find? at hthere
      rw [hlocate] at hthere
      cases hthere
  obtain ⟨n, hnode⟩ := Option.isSome_iff_exists.mp
    ((Volume.exists?_of_locate hsource).symm.trans hthere)
  have hmove := FileAction.rename_tooLong hsource hnode hgoal
  have hroom : (makeRoomWith FileAction.rename log.dir log.appName log.maxFiles).run.run v =
      (shiftWith FileAction.rename log.dir log.appName i).run.run v := by
    rw [hfiles, makeRoomWith_eq, hgone (m + 1) (by omega)]
    exact shiftWith_absent hi fun j hlow _ => hgone j hlow
  rw [← rotateWith_rename, rotateWith_eq (by omega)]
  cases i with
  | zero =>
    rw [FileAction.run_bind_ok hroom]
    exact FileAction.run_bind_error hmove
  | succ i =>
    refine FileAction.run_bind_error (hroom.trans ?_)
    have hexists : v.exists? (rotatedPath log.dir log.appName (i + 1)) = true := hthere
    rw [shiftWith_succ, if_pos hexists]
    exact FileAction.run_bind_error hmove

/-- A name of 250 or 251 bytes is short enough for the active file, but not for the next. -/
theorem rotate_stopped_here {log : RollingLog} {m : Nat} {v : Volume} {n : Files.Node}
    (hdir : log.dir = ".") (hfiles : log.maxFiles = m + 1)
    (hlow : 250 ≤ log.appName.utf8ByteSize) (hhigh : log.appName.utf8ByteSize ≤ 251)
    (hnames : ∀ c ∈ log.appName.toList, c ≠ '/' ∧ c ≠ '\x00')
    (hhome : v.node? home = some .directory)
    (hnode : v.node? (home ++ [log.appName ++ ".log"]) = some n) :
    v.find? log.path = some n ∧ v.exists? (rotatedPath log.dir log.appName 1) = false ∧
      log.rotate.run.run v = (.error .nameTooLong, v) := by
  obtain ⟨dir, appName, maxBytes, maxFiles, file, written⟩ := log
  obtain rfl : dir = "." := hdir
  let r : Rack := ⟨home, appName⟩
  have hlong : ¬ r.Fits "." appName 1 := by
    rintro ⟨-, hname⟩
    have hsix : (ending 1).utf8ByteSize = 6 := utf8ByteSize_ending 1
    have hlow : 250 ≤ r.stem.utf8ByteSize := hlow
    rw [String.utf8ByteSize_append, hsix] at hname
    unfold Volume.longestName at hname
    omega
  have hlocate := locate_active_here hhome hnames (Nat.add_le_add_right hhigh 4)
  have hfind := (Volume.find?_of_locate hlocate).trans hnode
  have hnext := locate_of_active hlocate 1
  rw [if_neg hlong] at hnext
  refine ⟨hfind, ?_, rotate_error_tooLong hlocate hfiles (Nat.zero_le m)
    (Volume.exists?_of_find? hfind) hlong⟩
  unfold Volume.exists? Volume.find?
  rw [show rotatedPath "." appName 1 = filePath "." appName 1 from rfl, hnext]
  rfl

/-- A log is ample if its active file is there, only files have its numbers, and the system takes
every name that one of them goes to. -/
theorem exists_ample (hactive : v.exists? log.path = true)
    (hlocate : v.locate log.path = .ok ⟨r.place 0, false⟩)
    (hplain : ∀ i ≤ m + 1, v.isDirectory (filePath log.dir log.appName i) = false)
    (hfits : ∀ i ≤ m, v.exists? (filePath log.dir log.appName i) = true →
      r.Fits log.dir log.appName (i + 1)) :
    ∃ k, r.Spans log.dir log.appName (m + 1) (k + 1) v ∧ r.Ample log k m v := by
  obtain ⟨last, hspans, hplaces⟩ := exists_spans hlocate hplain
  cases last with
  | zero => exact absurd (hfits 0 (Nat.zero_le m) hactive) (hspans.last 1 (by omega) (by omega))
  | succ k =>
    have hsome := Volume.exists?_of_locate hlocate
    rw [hactive] at hsome
    refine ⟨k, hspans, hspans.reached, hsome.symm, hplaces (k + 1) (Nat.le_refl _),
      Nat.le_of_succ_le_succ hspans.le, fun hk i hlow hhigh => ?_⟩
    have hpath : filePath log.dir log.appName i = rotatedPath log.dir log.appName i :=
      if_neg (by omega)
    rw [← hpath, ← Bool.not_eq_true]
    intro hthere
    by_cases hi : i = k + 1
    · rw [hi] at hthere
      exact hspans.last (k + 2) (by omega) (by omega) (hfits (k + 1) (by omega) hthere)
    · rw [hspans.exists?_beyond (by omega) hhigh] at hthere
      cases hthere

/-- Files whose next names are not taken are not there, so the places tell what the names do. -/
theorem find?_next {v' : Volume} (hspans : r.Spans log.dir log.appName (m + 1) (k + 1) v)
    (hled' : r.Led log.dir log.appName (k + 1) v') {active : Files.Node}
    (hnodes : ∀ i, v'.node? (r.place i) =
      rotated (k + 1) active (fun i => v.node? (r.place i)) i)
    (hnames : ∀ i ≤ m, v.exists? (filePath log.dir log.appName i) = true →
      r.Fits log.dir log.appName (i + 1)) {i : Nat} (hi : i ≤ m) :
    v'.find? (filePath log.dir log.appName (i + 1)) =
      v.find? (filePath log.dir log.appName i) := by
  rw [hled'.find?_filePath]
  by_cases hnext : r.Fits log.dir log.appName (i + 1)
  · have hkept : i + 1 ≤ k + 1 := by
      by_contra hbeyond
      exact hspans.last (i + 1) (by omega) (by omega) hnext
    rw [if_pos hnext, hspans.led.find?_filePath, if_pos (hnext.mono (Nat.le_succ i)), hnodes,
      rotated, if_neg (Nat.succ_ne_zero i), if_pos hkept, Nat.add_sub_cancel]
  · rw [if_neg hnext]
    cases hfound : v.find? (filePath log.dir log.appName i) with
    | none => rfl
    | some n => exact absurd (hnames i hi (Volume.exists?_of_find? hfound)) hnext

/-- The place of an active file that is there. -/
theorem exists_place_of_isFile (h : v.isFile log.path = true) :
    ∃ r : Rack, v.locate log.path = .ok ⟨r.place 0, false⟩ ∧
      ∃ id, v.find? log.path = some (.file id) := by
  unfold Volume.isFile at h
  split at h
  · rename_i id hid
    cases ht : v.locate log.path with
    | error e =>
      unfold Volume.find? at hid
      rw [ht] at hid
      cases hid
    | ok t =>
      obtain ⟨r, rfl⟩ := exists_rack ht
      exact ⟨r, rfl, id, hid⟩
  · cases h

end Rotation

/-- A rotation of a log whose active file is there, with nothing but files at its numbers, gives
each file the next number, up to the last, and begins an empty active file: none takes the place of
another, all of them hold what they held, and everything else stays as it is. It succeeds exactly if
the system takes the next name of each file that is to have one, and changes nothing otherwise. -/
theorem rotation_shifts_exactly {log : RollingLog} {v : Volume} (hfiles : 1 ≤ log.maxFiles)
    (hactive : v.isFile log.path = true)
    (hplain : ∀ i, 1 ≤ i → i ≤ log.maxFiles →
      v.isDirectory (rotatedPath log.dir log.appName i) = false) :
    ((∀ i < log.maxFiles, v.exists? (filePath log.dir log.appName i) = true →
        (v.locate (filePath log.dir log.appName (i + 1))).isOk = true) →
      ∃ v', log.rotate.run.run v =
          (.ok { log with file := ⟨v.contents.size, true, 0⟩, written := 0 }, v') ∧
        (log.rotateWith FileAction.renameFree).run.run v = log.rotate.run.run v ∧
        v'.find? log.path = some (.file v.contents.size) ∧
        v'.content v.contents.size = ByteArray.empty ∧
        (∀ i < log.maxFiles, v'.find? (filePath log.dir log.appName (i + 1)) =
          v.find? (filePath log.dir log.appName i)) ∧
        (∀ i, log.maxFiles < i → v'.find? (filePath log.dir log.appName i) =
          v.find? (filePath log.dir log.appName i)) ∧
        (∀ q, (∀ i ≤ log.maxFiles, ∀ t, v.locate (filePath log.dir log.appName i) = .ok t →
          ¬ t.place <+: q) → v'.node? q = v.node? q) ∧
        ∀ id, v'.content id = v.content id) ∧
    (∀ i < log.maxFiles, v.exists? (filePath log.dir log.appName i) = true →
      (v.locate (filePath log.dir log.appName (i + 1))).isOk = false →
      log.rotate.run.run v = (.error .nameTooLong, v)) := by
  obtain ⟨m, hm⟩ : ∃ m, log.maxFiles = m + 1 := ⟨log.maxFiles - 1, by omega⟩
  obtain ⟨r, hlocate, id, hid⟩ := exists_place_of_isFile hactive
  have hfit := isOk_locate_iff hlocate
  refine ⟨fun hnames => ?_, fun i hi hexists hlong => ?_⟩
  · have hnames' : ∀ i ≤ m, v.exists? (filePath log.dir log.appName i) = true →
        r.Fits log.dir log.appName (i + 1) :=
      fun i hi hexists => (hfit (i + 1)).mp (hnames i (by omega) hexists)
    have hfiles' : ∀ i ≤ m + 1, v.isDirectory (filePath log.dir log.appName i) = false := by
      intro i hi
      by_cases hi0 : i = 0
      · rw [hi0, Volume.isDirectory, show v.find? (filePath log.dir log.appName 0) = _ from hid]
        rfl
      · rw [filePath, if_neg hi0]
        exact hplain i (by omega) (by omega)
    obtain ⟨k, hspans, hample⟩ :=
      exists_ample (Volume.exists?_of_find? hid) hlocate hfiles' hnames'
    obtain ⟨v', hrun, hrunFree, hapart, hcontents, hnodes⟩ := rotateWith_run hample hm
    have hled' := hspans.led.of_apart hapart
    have hle := hample.le
    refine ⟨v', hrun, hrunFree.trans hrun.symm, ?_, Volume.content_push_new hcontents,
      fun i hi => find?_next hspans hled' hnodes hnames' (by omega), fun i hi => ?_,
      fun q hq => hapart q fun i hi => hq i (by omega) _ (hample.reached.locate i hi), fun id =>
      ((RollingLog.rotate_spares hm).of_run hrun).content id⟩
    · have hnew := Volume.find?_of_locate hled'.active
      rw [hnodes, rotated, if_pos rfl] at hnew
      exact hnew
    · have hsame : v'.node? (r.place i) = v.node? (r.place i) := by
        rw [hnodes, rotated, if_neg (by omega), if_neg (by omega)]
      rw [hled'.find?_filePath, hspans.led.find?_filePath, hsame]
  · refine rotate_error_tooLong hlocate hm (by omega) hexists fun hfits => ?_
    rw [(hfit (i + 1)).mpr hfits] at hlong
    cases hlong

/-- The active file and the second file that was set aside move one number up; the first number,
which nothing had, gives way to the active file, and the third is dropped. -/
theorem rotation_shifts_exactly_with_gap :
    let v : Volume := ⟨[(["tmp"], .directory), (home, .directory), (home ++ ["App.log"], .file 0),
      (home ++ ["App.log.2"], .file 1), (home ++ ["App.log.3"], .file 2),
      (home ++ ["App.log.4"], .file 3)],
      #["aaaa".toUTF8, "bbbb".toUTF8, "cccc".toUTF8, "dddd".toUTF8]⟩
    let log : RollingLog := ⟨".", "App", 4, 3, ⟨0, true, 0⟩, 4⟩
    1 ≤ log.maxFiles ∧ v.isFile log.path = true ∧
      (∀ i, 1 ≤ i → i ≤ log.maxFiles →
        v.isDirectory (rotatedPath log.dir log.appName i) = false) ∧
      (∀ i < log.maxFiles, v.exists? (filePath log.dir log.appName i) = true →
        (v.locate (filePath log.dir log.appName (i + 1))).isOk = true) ∧
      ∃ v', log.rotate.run.run v = (.ok { log with file := ⟨4, true, 0⟩, written := 0 }, v') ∧
        v'.find? log.path = some (.file 4) ∧
        v'.find? (filePath log.dir log.appName 1) = some (.file 0) ∧
        v'.find? (filePath log.dir log.appName 2) = none ∧
        v'.find? (filePath log.dir log.appName 3) = some (.file 1) ∧
        v'.find? (filePath log.dir log.appName 4) = some (.file 3) := by
  intro v log
  have hactive : v.isFile log.path = true := by decide +kernel
  have hplain : ∀ i ≤ log.maxFiles, 1 ≤ i →
      v.isDirectory (rotatedPath log.dir log.appName i) = false := by decide +kernel
  have hnames : ∀ i < log.maxFiles, v.exists? (filePath log.dir log.appName i) = true →
      (v.locate (filePath log.dir log.appName (i + 1))).isOk = true := by decide +kernel
  obtain ⟨hshifts, -⟩ := @rotation_shifts_exactly log v (by decide) hactive
    fun i hlow hhigh => hplain i hhigh hlow
  obtain ⟨v', hrun, -, hnew, -, hnext, hbeyond, -, -⟩ := hshifts hnames
  refine ⟨by decide, hactive, fun i hlow hhigh => hplain i hhigh hlow, hnames, v', hrun, hnew,
    ?_, ?_, ?_, ?_⟩
  · exact (hnext 0 (by decide)).trans (by decide +kernel)
  · exact (hnext 1 (by decide)).trans (by decide +kernel)
  · exact (hnext 2 (by decide)).trans (by decide +kernel)
  · exact (hbeyond 4 (by decide)).trans (by decide +kernel)

/-- The name of an active file can be so long that the next one is refused. A rotation then fails,
and nothing changes. -/
theorem rotation_stopped_by_long_name :
    let appName := String.ofList (List.replicate 250 '0')
    let v : Volume := ⟨[(["tmp"], .directory), (home, .directory),
      (home ++ [appName ++ ".log"], .file 0)], #["aaaa".toUTF8]⟩
    let log : RollingLog := ⟨".", appName, 4, 1, ⟨0, true, 0⟩, 4⟩
    v.find? log.path = some (.file log.file.file) ∧
      v.exists? (rotatedPath log.dir log.appName 1) = false ∧
      log.rotate.run.run v = (.error .nameTooLong, v) := by
  intro appName v log
  have hmem : ∀ c ∈ List.replicate 250 '0', c = '0' := fun c => List.eq_of_mem_replicate
  have hsize : appName.utf8ByteSize = 250 := (utf8ByteSize_digits fun c hc => by
    rw [hmem c hc]
    decide).trans (List.length_replicate ..)
  have hnames : ∀ c ∈ appName.toList, c ≠ '/' ∧ c ≠ '\x00' := by
    intro c hc
    rw [String.toList_ofList] at hc
    rw [hmem c hc]
    decide
  have hnode : v.node? (home ++ [appName ++ ".log"]) = some (.file 0) := by
    decide +kernel
  exact rotate_stopped_here rfl rfl hsize.ge (hsize.trans_le (by decide)) hnames rfl hnode
end Pinboard.Log
