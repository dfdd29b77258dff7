import Pinboard.Proofs.LogFiles

/-!
# Setting a log's file aside

What rotation does, told by the numbers of the files: each file up to the last number but one goes
one number up, the last one is dropped, and an empty file takes the place of the active one. It
works wherever an active file is there and the last number is not that of a directory, and whatever
else stands at the other numbers. From there: a write that fails has changed nothing, as long as the
active file is there.
-/

namespace Pinboard.Log

open Files

variable {r : Rack} {dir appName : String} {m : Nat} {v : Volume}

/-! ## Steps -/

theorem Rack.Reached.exists? (h : r.Reached dir appName m v) {i : Nat} (hi : i ≤ m) :
    v.exists? (filePath dir appName i) = (v.node? (r.place i)).isSome :=
  Volume.exists?_of_locate (h.locate i hi)

theorem Rack.Reached.exists?_rotated (h : r.Reached dir appName m v) {i : Nat} (hi : i ≤ m)
    (hpos : i ≠ 0) : v.exists? (rotatedPath dir appName i) = (v.node? (r.place i)).isSome := by
  have hexists := h.exists? hi
  rw [filePath, if_neg hpos] at hexists
  exact hexists

/-- What has a number can be given another one that is free. -/
theorem Rack.Reached.rename (h : r.Reached dir appName m v) {i j : Nat} (hi : i ≤ m) (hj : j ≤ m)
    (hij : i ≠ j) (hnode : (v.node? (r.place i)).isSome) (hfree : v.node? (r.place j) = none) :
    (FileAction.rename (filePath dir appName i) (filePath dir appName j)).run.run v =
      (.ok (), v.moveNode (r.place i) (r.place j)) :=
  FileAction.rename_free (h.locate i hi) (h.locate j hj) hnode hfree (Rack.place_not_below hij)

theorem shift_succ (dir appName : String) (n : Nat) (v : Volume) :
    (RollingLog.shift dir appName (n + 1)).run.run v =
      ((if v.exists? (rotatedPath dir appName (n + 1)) then
          FileAction.rename (rotatedPath dir appName (n + 1)) (rotatedPath dir appName (n + 2))
        else pure ()) >>= fun _ => RollingLog.shift dir appName n).run.run v := by
  rw [RollingLog.shift, FileAction.run_get_bind]
  split <;> rfl

/-- What stands at a number once everything from 1 to `n` has gone one number up. -/
def shifted (n : Nat) (slots : Nat → Option Node) (k : Nat) : Option Node :=
  if k = 0 ∨ n + 1 < k then slots k else if k = 1 then none else slots (k - 1)

theorem shifted_outside {n k : Nat} (slots : Nat → Option Node) (hk : k = 0 ∨ n + 1 < k) :
    shifted n slots k = slots k := if_pos hk

theorem shifted_one (n : Nat) (slots : Nat → Option Node) : shifted n slots 1 = none := by
  rw [shifted, if_neg (by omega), if_pos rfl]

theorem shifted_inside {n k : Nat} (slots : Nat → Option Node) (hk : 2 ≤ k) (hkn : k ≤ n + 1) :
    shifted n slots k = slots (k - 1) := by
  rw [shifted, if_neg (by omega), if_neg (by omega)]

/-- Once the highest number has made way, the others follow as if it had not been there. -/
theorem shifted_succ {n : Nat} {slots slots' : Nat → Option Node}
    (htop : slots' (n + 2) = slots (n + 1))
    (hrest : ∀ k, k ≠ n + 1 → k ≠ n + 2 → slots' k = slots k) (k : Nat) :
    shifted n slots' k = shifted (n + 1) slots k := by
  have hcases : (k = 0 ∨ n + 2 < k) ∨ k = 1 ∨ k = n + 2 ∨ 2 ≤ k ∧ k ≤ n + 1 := by omega
  rcases hcases with hout | rfl | rfl | ⟨hlow, hhigh⟩
  · rw [shifted_outside slots' (by omega), shifted_outside slots (by omega)]
    exact hrest k (by omega) (by omega)
  · rw [shifted_one, shifted_one]
  · rw [shifted_outside slots' (by omega), shifted_inside slots (by omega) (by omega)]
    exact htop
  · rw [shifted_inside slots' hlow hhigh, shifted_inside slots hlow (by omega)]
    exact hrest _ (by omega) (by omega)

/-- Files that were set aside go one number up, up to a number that is free. -/
theorem shift_run {n : Nat} (h : r.Reached dir appName m v) (hn : n + 1 ≤ m)
    (hfree : v.node? (r.place (n + 1)) = none) :
    ∃ v', (RollingLog.shift dir appName n).run.run v = (.ok (), v') ∧ r.Apart m v v' ∧
      v'.contents = v.contents ∧
      ∀ k, v'.node? (r.place k) = shifted n (fun i => v.node? (r.place i)) k := by
  -- The highest number goes first, into the free one; what it leaves is free for the next.
  induction n generalizing v with
  | zero =>
    refine ⟨v, rfl, .refl r m v, rfl, fun k => ?_⟩
    by_cases hk : k = 1
    · rw [hk, hfree, shifted_one]
    · rw [shifted_outside _ (by omega)]
  | succ n ih =>
    rw [shift_succ, h.exists?_rotated (by omega) (by omega)]
    cases hnode : v.node? (r.place (n + 1)) with
    | none =>
      obtain ⟨v', hrun, hapart, hcontents, hnodes⟩ := ih h (by omega) hnode
      refine ⟨v', hrun, hapart, hcontents, fun k => ?_⟩
      rw [hnodes k]
      exact shifted_succ (hfree.trans hnode.symm) (fun _ _ _ => rfl) k
    | some node =>
      have hsome : (v.node? (r.place (n + 1))).isSome := by
        rw [hnode]
        rfl
      have hmove := h.rename (i := n + 1) (j := n + 2) (by omega) hn (by omega) hsome hfree
      have hplace : ∀ k, (v.moveNode (r.place (n + 1)) (r.place (n + 2))).node? (r.place k) =
          if k = n + 2 then v.node? (r.place (n + 1)) else if k = n + 1 then none
          else v.node? (r.place k) := Rack.node?_moveNode_place (by omega) hfree
      have hempty : (v.moveNode (r.place (n + 1)) (r.place (n + 2))).node? (r.place (n + 1)) =
          none := by
        rw [hplace, if_neg (by omega), if_pos rfl]
      have hmoved : r.Apart m v (v.moveNode (r.place (n + 1)) (r.place (n + 2))) :=
        Rack.apart_moveNode (by omega) hn
      obtain ⟨v', hrun, hapart, hcontents, hnodes⟩ := ih (h.of_apart hmoved) (by omega) hempty
      refine ⟨v', ?_, hmoved.trans hapart, hcontents, fun k => ?_⟩
      · rw [if_pos (show (some node).isSome = true from rfl)]
        exact (FileAction.run_bind_ok hmove).trans hrun
      · rw [hnodes k]
        refine shifted_succ ?_ (fun k hk hk' => ?_) k
        · show Volume.node? _ _ = _
          rw [hplace, if_pos rfl]
        · show Volume.node? _ _ = _
          rw [hplace, if_neg hk', if_neg hk]

/-! ## Rotation -/

/-- What stands at a number after a rotation with `m` files kept, if the active file becomes `n`. -/
def rotated (m : Nat) (n : Node) (slots : Nat → Option Node) (k : Nat) : Option Node :=
  if k = 0 then some n else if k ≤ m then slots (k - 1) else slots k

/-- A rotation is a shift and then a step of the active file. -/
theorem rotated_of_shifted {n : Node} {slots slots' slots'' : Nat → Option Node}
    (hshifted : ∀ k, slots' k = shifted m slots k)
    (hrenewed : ∀ k, slots'' k =
      if k = 0 then some n else if k = 1 then slots' 0 else slots' k) (k : Nat) :
    slots'' k = rotated (m + 1) n slots k := by
  rw [hrenewed]
  unfold rotated
  by_cases hk : k = 0
  · rw [if_pos hk, if_pos hk]
  rw [if_neg hk, if_neg hk]
  by_cases hone : k = 1
  · rw [if_pos hone, if_pos (by omega), hone, hshifted, shifted_outside _ (Or.inl rfl)]
  rw [if_neg hone, hshifted]
  by_cases hkept : k ≤ m + 1
  · rw [if_pos hkept, shifted_inside _ (by omega) hkept]
  · rw [if_neg hkept, shifted_outside _ (by omega)]

/-- The file with the last number is dropped, if there is one. -/
theorem drop_run (h : r.Reached dir appName m v) (hm : m ≠ 0)
    (holdest : v.node? (r.place m) ≠ some .directory) :
    ∃ v', (if v.exists? (rotatedPath dir appName m) then
        FileAction.removeFile (rotatedPath dir appName m) else pure ()).run.run v = (.ok (), v') ∧
      r.Apart m v v' ∧ v'.contents = v.contents ∧
      ∀ k, v'.node? (r.place k) = if k = m then none else v.node? (r.place k) := by
  have hlocate := h.locate m (Nat.le_refl m)
  rw [filePath, if_neg hm] at hlocate
  rw [h.exists?_rotated (Nat.le_refl m) hm]
  cases hnode : v.node? (r.place m) with
  | none =>
    refine ⟨v, rfl, .refl r m v, rfl, fun k => ?_⟩
    by_cases hk : k = m
    · rw [if_pos hk, hk, hnode]
    · rw [if_neg hk]
  | some n =>
    cases n with
    | directory => exact absurd hnode holdest
    | file id =>
      refine ⟨v.erase (r.place m), ?_, Rack.apart_erase (Nat.le_refl m), rfl,
        Rack.node?_erase_place v m⟩
      exact FileAction.removeFile_file hlocate hnode

/-- What comes before the active file is set aside: the last number becomes free, and all others but
that of the active file go one up. -/
theorem makeRoom_run (h : r.Reached dir appName (m + 1) v)
    (holdest : v.node? (r.place (m + 1)) ≠ some .directory) :
    ∃ v' v'', (if v.exists? (rotatedPath dir appName (m + 1)) then
          FileAction.removeFile (rotatedPath dir appName (m + 1)) else pure ()).run.run v =
        (.ok (), v') ∧
      (RollingLog.shift dir appName m).run.run v' = (.ok (), v'') ∧
      r.Apart (m + 1) v v'' ∧ v''.contents = v.contents ∧
      ∀ k, v''.node? (r.place k) = shifted m (fun i => v.node? (r.place i)) k := by
  obtain ⟨v1, hdrop, hapart1, hcontents1, hnodes1⟩ := drop_run h (by omega) holdest
  have hfree : v1.node? (r.place (m + 1)) = none := by
    rw [hnodes1, if_pos rfl]
  obtain ⟨v2, hshift, hapart2, hcontents2, hnodes2⟩ :=
    shift_run (h.of_apart hapart1) (Nat.le_refl _) hfree
  refine ⟨v1, v2, hdrop, hshift, hapart1.trans hapart2, hcontents2.trans hcontents1, fun k => ?_⟩
  rw [hnodes2]
  have hcases : (k = 0 ∨ m + 1 < k) ∨ k = 1 ∨ 2 ≤ k ∧ k ≤ m + 1 := by omega
  rcases hcases with hout | rfl | ⟨hlow, hhigh⟩
  · rw [shifted_outside _ hout, shifted_outside _ hout, hnodes1, if_neg (by omega)]
  · rw [shifted_one, shifted_one]
  · rw [shifted_inside _ hlow hhigh, shifted_inside _ hlow hhigh, hnodes1, if_neg (by omega)]

theorem rotate_eq {log : RollingLog} (hfiles : log.maxFiles = m + 1) (v : Volume) :
    log.rotate.run.run v =
      ((if v.exists? (rotatedPath log.dir log.appName (m + 1)) then
            FileAction.removeFile (rotatedPath log.dir log.appName (m + 1)) else pure ()) >>=
        fun _ => RollingLog.shift log.dir log.appName m >>= fun _ =>
        FileAction.rename log.path (rotatedPath log.dir log.appName 1) >>= fun _ =>
        OpenFile.append log.path >>= fun file =>
        pure { log with file := file, written := 0 }).run.run v := by
  obtain ⟨dir, appName, maxBytes, maxFiles, file, written⟩ := log
  subst hfiles
  unfold RollingLog.rotate
  rw [if_neg (Nat.succ_ne_zero m), FileAction.run_get_bind]
  dsimp only [Nat.add_sub_cancel]
  split <;> rfl

/-- Where nothing stands, an empty file is made and opened. -/
theorem append_run (h : r.Reached dir appName m v) (hfree : v.node? (r.place 0) = none) :
    ∃ v', (OpenFile.append (activePath dir appName)).run.run v =
        (.ok ⟨v.contents.size, true, 0⟩, v') ∧
      r.Apart m v v' ∧ v'.contents = v.contents.push ByteArray.empty ∧
      ∀ k, v'.node? (r.place k) =
        if k = 0 then some (.file v.contents.size) else v.node? (r.place k) := by
  refine ⟨{ v.insert (r.place 0) (.file v.contents.size) with
    contents := v.contents.push ByteArray.empty }, ?_, ?_, rfl, fun k => ?_⟩
  · exact FileAction.run_bind_ok (FileAction.openOrCreate_free (h.locate 0 (Nat.zero_le m)) hfree)
  · exact (Rack.apart_insert (Nat.zero_le m) hfree).trans (Rack.apart_contents _)
  · have hinsert : (v.insert (r.place 0) (.file v.contents.size)).node? (r.place k) = _ :=
      Rack.node?_insert_place hfree k
    rw [← hinsert]
    exact Rack.node?_contents _ _ _

/-- With the first number free, the active file is given it, and an empty one takes its place. -/
theorem renew_run (h : r.Reached dir appName (m + 1) v) (hactive : (v.node? (r.place 0)).isSome)
    (hfree : v.node? (r.place 1) = none) :
    ∃ v' v'', (FileAction.rename (activePath dir appName) (rotatedPath dir appName 1)).run.run v =
        (.ok (), v') ∧
      (OpenFile.append (activePath dir appName)).run.run v' =
        (.ok ⟨v.contents.size, true, 0⟩, v'') ∧
      r.Apart (m + 1) v v'' ∧ v''.contents = v.contents.push ByteArray.empty ∧
      ∀ k, v''.node? (r.place k) = if k = 0 then some (.file v.contents.size)
        else if k = 1 then v.node? (r.place 0) else v.node? (r.place k) := by
  have hmove : (FileAction.rename (activePath dir appName) (rotatedPath dir appName 1)).run.run v =
      _ := h.rename (i := 0) (j := 1) (by omega) (by omega) (by omega) hactive hfree
  have hapart1 : r.Apart (m + 1) v (v.moveNode (r.place 0) (r.place 1)) :=
    Rack.apart_moveNode (by omega) (by omega)
  have hnodes1 : ∀ k, (v.moveNode (r.place 0) (r.place 1)).node? (r.place k) =
      if k = 1 then v.node? (r.place 0) else if k = 0 then none else v.node? (r.place k) :=
    Rack.node?_moveNode_place (by omega) hfree
  have hgone : (v.moveNode (r.place 0) (r.place 1)).node? (r.place 0) = none := by
    rw [hnodes1, if_neg (by omega), if_pos rfl]
  obtain ⟨v2, happend, hapart2, hcontents2, hnodes2⟩ := append_run (h.of_apart hapart1) hgone
  refine ⟨_, v2, hmove, happend, hapart1.trans hapart2, hcontents2, fun k => ?_⟩
  rw [hnodes2]
  by_cases hk : k = 0
  · rw [if_pos hk, if_pos hk]
    rfl
  · rw [if_neg hk, if_neg hk, hnodes1, if_neg hk]

theorem write_fits {log : RollingLog} {record : ByteArray}
    (hfits : log.overflows record.size = false) (v : Volume) :
    (log.write record).run.run v = ((log.file.write record) >>= fun file =>
      pure { log with file := file, written := log.written + record.size }).run.run v := by
  unfold RollingLog.write
  rw [hfits]
  rfl

theorem write_overflows {log : RollingLog} {record : ByteArray}
    (hfull : log.overflows record.size = true) (v : Volume) :
    (log.write record).run.run v = (log.rotate >>= fun log => log.file.write record >>= fun file =>
      pure { log with file := file, written := log.written + record.size }).run.run v := by
  unfold RollingLog.write
  rw [hfull]
  rfl

/-- A write fails only where a rotation does, and does nothing beyond it. -/
theorem rotate_error_of_write {log : RollingLog} {record : ByteArray} {v v' : Volume}
    {e : FileError} (h : (log.write record).run.run v = (.error e, v')) :
    log.overflows record.size = true ∧ log.rotate.run.run v = (.error e, v') := by
  by_cases hfull : log.overflows record.size = true
  · rw [write_overflows hfull] at h
    refine ⟨hfull, ?_⟩
    rcases hrotate : log.rotate.run.run v with ⟨e' | log', v1⟩
    · rw [FileAction.run_bind_error hrotate] at h
      exact h
    · rw [FileAction.run_bind_ok hrotate] at h
      obtain ⟨f', v2, hwrite⟩ := OpenFile.write_ok log'.file record v1
      rw [FileAction.run_bind_ok hwrite] at h
      cases h
  · rw [write_fits (by simpa using hfull)] at h
    obtain ⟨f', v2, hwrite⟩ := OpenFile.write_ok log.file record v
    rw [FileAction.run_bind_ok hwrite] at h
    cases h

/-- Where the last number is that of a directory, a rotation fails before it has done anything. -/
theorem rotate_error_directory {log : RollingLog} (hfiles : log.maxFiles = m + 1)
    (h : r.Reached log.dir log.appName (m + 1) v)
    (holdest : v.node? (r.place (m + 1)) = some .directory) :
    log.rotate.run.run v = (.error .isADirectory, v) := by
  have hlocate := h.locate (m + 1) (Nat.le_refl _)
  rw [rotate_eq hfiles, h.exists?_rotated (Nat.le_refl _) (by omega), holdest]
  exact FileAction.run_bind_error (FileAction.removeFile_directory hlocate holdest)

/-- Without the active file, a record that does not fit is refused, but only after the files that
were set aside have gone one number up, and the last one is lost. -/
theorem write_without_active {log : RollingLog} {record : ByteArray}
    (hfiles : log.maxFiles = m + 1) (h : r.Reached log.dir log.appName (m + 1) v)
    (hfull : log.overflows record.size = true) (hactive : v.node? (r.place 0) = none)
    (holdest : v.node? (r.place (m + 1)) ≠ some .directory) :
    ∃ v', (log.write record).run.run v = (.error .notFound, v') ∧
      ∀ k, v'.node? (r.place k) = shifted m (fun i => v.node? (r.place i)) k := by
  obtain ⟨v1, v2, hdrop, hshift, hapart2, -, hnodes2⟩ := makeRoom_run h holdest
  have h2 := h.of_apart hapart2
  have hgone : v2.node? (r.place 0) = none := by
    rw [hnodes2, shifted_outside _ (Or.inl rfl)]
    exact hactive
  have hactive2 : v2.locate log.path = .ok ⟨r.place 0, false⟩ := h2.locate 0 (Nat.zero_le _)
  have hyoungest : v2.locate (rotatedPath log.dir log.appName 1) = .ok ⟨r.place 1, false⟩ :=
    h2.locate 1 (by omega)
  have hrename : (FileAction.rename log.path (rotatedPath log.dir log.appName 1)).run.run v2 =
      (.error .notFound, v2) := FileAction.rename_missing hactive2 hyoungest hgone
  refine ⟨v2, ?_, hnodes2⟩
  have hrotate : log.rotate.run.run v = (.error .notFound, v2) := by
    rw [rotate_eq hfiles, FileAction.run_bind_ok hdrop, FileAction.run_bind_ok hshift]
    exact FileAction.run_bind_error hrename
  rw [write_overflows hfull]
  exact FileAction.run_bind_error hrotate

end Pinboard.Log
