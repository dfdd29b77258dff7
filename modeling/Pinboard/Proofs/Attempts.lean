import Pinboard.Proofs.Contents

/-!
# Actions that may fail

What an action does to a volume when it is not known whether it succeeds: it fails and nothing has
changed, or it has done its work. And what making a directory leaves behind: the directory is there,
and making it again changes nothing.
-/

namespace Pinboard.Files

namespace Volume

variable {v v' : Volume} {path : String}

theorem erase_of_free {q : Place} (h : v.node? q = none) : v.erase q = v := by
  have hnodes : v.nodes.filter (·.1 ≠ q) = v.nodes :=
    List.filter_eq_self.mpr fun n hn => by simpa using ne_of_node?_none h n hn
  unfold erase
  rw [hnodes]

/-- Wherever a path leads, that is its place. -/
def Leads (v : Volume) (path : String) (place : Place) : Prop :=
  ∀ t, v.locate path = .ok t → t = ⟨place, false⟩

/-- A path leads through directories. -/
theorem directory_of_passes {t : Target} (h : v.locate path = .ok t) :
    ∀ q ∈ passes path, v.node? q = some .directory := by
  unfold passes
  dsimp only
  cases hlast : (Path.ofText path).names.getLast? with
  | none =>
    rw [List.getLast?_eq_none_iff.mp hlast]
    exact List.forall_mem_nil _
  | some last =>
    obtain ⟨d, hwalk, -⟩ := approach_eq_ok (locate_eq_ok.mp h).1 hlast
    exact directory_of_passed hwalk

theorem ne_of_free {p q : Place} {n : Node} (hp : v.node? p = none) (hq : v.node? q = some n) :
    q ≠ p := by
  rintro rfl
  rw [hp] at hq
  cases hq

theorem isDirectory_iff : v.isDirectory path = true ↔
    ∃ t, v.locate path = .ok t ∧ v.node? t.place = some .directory := by
  unfold isDirectory find?
  cases hlocate : v.locate path with
  | error e => simp
  | ok t =>
    dsimp only
    cases hnode : v.node? t.place with
    | none => simp [hnode]
    | some n =>
      cases n with
      | directory => simp [hnode]
      | file id => cases ht : t.directory <;> simp [hnode]

/-- A directory stays if nothing happens on the way to it and to itself. -/
theorem isDirectory_congr (h : v.isDirectory path = true)
    (hway : ∀ q ∈ passes path, v'.node? q = v.node? q)
    (hend : ∀ t, v.locate path = .ok t → v'.node? t.place = v.node? t.place) :
    v'.isDirectory path = true := by
  obtain ⟨t, hlocate, hnode⟩ := isDirectory_iff.mp h
  exact isDirectory_iff.mpr ⟨t, locate_congr hlocate hway, (hend t hlocate).trans hnode⟩

/-- Where all directories stay, a path that leads to one leads to one. -/
theorem isDirectory_grown (h : v.isDirectory path = true)
    (hkept : ∀ q, v.node? q = some .directory → v'.node? q = some .directory) :
    v'.isDirectory path = true := by
  obtain ⟨t, hlocate, hnode⟩ := isDirectory_iff.mp h
  have hway : ∀ q ∈ passes path, v'.node? q = v.node? q := by
    intro q hq
    have hdir := directory_of_passes hlocate q hq
    rw [hdir, hkept q hdir]
  exact isDirectory_congr h hway fun t' ht' => by
    cases hlocate.symm.trans ht'
    rw [hnode, hkept _ hnode]

/-- A walk ends where it began, or at the last directory that it passed. -/
theorem walk_end {place d : Place} {names : List String} (h : v.walk place names = .ok d) :
    d = place ∨ d ∈ passed place names := by
  induction names generalizing place with
  | nil =>
    cases h
    exact Or.inl rfl
  | cons name names ih =>
    rw [walk_cons] at h
    split at h
    · cases h
    split at h
    · cases h
    · cases h
    · rcases ih h with rfl | hd
      · exact Or.inr List.mem_cons_self
      · exact Or.inr (List.mem_cons_of_mem _ hd)

/-- Where a walk ends, if it comes to its end, can be told from the names. -/
theorem walk_eq_foldl {place d : Place} {names : List String} (h : v.walk place names = .ok d) :
    d = names.foldl next place := by
  induction names generalizing place with
  | nil =>
    cases h
    rfl
  | cons name names ih =>
    rw [walk_cons] at h
    split at h
    · cases h
    split at h
    · cases h
    · cases h
    · exact ih h

end Volume

namespace FileAction

variable {v v' : Volume} {path : String}

/-- A file is removed, or nothing happens. -/
theorem removeFile_attempt {place : Place} (h : v.Leads path place) :
    (∃ e, (removeFile path).run.run v = (.error e, v)) ∨
      (removeFile path).run.run v = (.ok (), v.erase place) := by
  unfold removeFile
  rw [run_bind, target_run]
  cases hlocate : v.locate path with
  | error e => exact Or.inl ⟨e, rfl⟩
  | ok t =>
    obtain rfl := h t hlocate
    dsimp only [Except.map]
    cases v.node? place with
    | none => exact Or.inl ⟨.notFound, rfl⟩
    | some n =>
      cases n with
      | directory => exact Or.inl ⟨.isADirectory, rfl⟩
      | file id => exact Or.inr rfl

theorem approach_run (path : String) (v : Volume) :
    (approach path).run.run v = ((v.approach path).map fun _ => (), v) := by
  unfold approach
  rw [run_get_bind]
  cases v.approach path <;> rfl

/-- A file takes the place of another one or a free place, or nothing happens. -/
theorem rename_attempt {source goal : String} {s t : Place} (hs : v.Leads source s)
    (ht : v.Leads goal t) (hne : s ≠ t) (hfile : v.node? s ≠ some .directory) :
    (∃ e, (rename source goal).run.run v = (.error e, v)) ∨
      (rename source goal).run.run v = (.ok (), (v.erase t).moveNode s t) := by
  unfold rename
  rw [run_bind, approach_run]
  cases v.approach source with
  | error e => exact Or.inl ⟨e, rfl⟩
  | ok _ =>
  dsimp only [Except.map]
  rw [run_bind, approach_run]
  cases v.approach goal with
  | error e => exact Or.inl ⟨e, rfl⟩
  | ok _ =>
  dsimp only [Except.map]
  rw [run_bind, target_run]
  cases hsource : v.locate source with
  | error e => exact Or.inl ⟨e, rfl⟩
  | ok t' =>
  obtain rfl := hs t' hsource
  dsimp only [Except.map]
  cases hnode : v.node? s with
  | none => exact Or.inl ⟨.notFound, rfl⟩
  | some n =>
  cases n with
  | directory => exact absurd hnode hfile
  | file id =>
  show (∃ e, ((target goal) >>= _).run.run v = _) ∨ ((target goal) >>= _).run.run v = _
  rw [run_bind, target_run]
  cases hgoal : v.locate goal with
  | error e => exact Or.inl ⟨e, rfl⟩
  | ok t' =>
  obtain rfl := ht t' hgoal
  dsimp only [Except.map]
  cases hgoal : v.node? t with
  | none =>
    rw [Volume.erase_of_free hgoal]
    exact Or.inr rfl
  | some n =>
    cases n with
    | directory => exact Or.inl ⟨.isADirectory, rfl⟩
    | file id' =>
      right
      dsimp only
      simp only [hne]
      rfl

/-- What was renamed, file or directory, is no longer where it was. -/
theorem rename_vacates {source goal : String} {s t : Place} (hs : v.Leads source s)
    (ht : v.Leads goal t) (hroot : s ≠ []) (hbelow : ¬ t <+: s)
    (h : (rename source goal).run.run v = (.ok (), v')) : v'.node? s = none := by
  have hne : s ≠ t := by
    rintro rfl
    exact hbelow (List.prefix_refl _)
  have hmoved : ∀ v1 : Volume, (v1.moveNode s t).node? s = none := fun v1 =>
    Volume.node?_moveNode_source v1 hroot hbelow
  unfold rename at h
  rw [run_bind, approach_run] at h
  cases hway : v.approach source with
  | error e =>
    rw [hway] at h
    cases h
  | ok _ =>
  rw [hway] at h
  dsimp only [Except.map] at h
  rw [run_bind, approach_run] at h
  cases hway' : v.approach goal with
  | error e =>
    rw [hway'] at h
    cases h
  | ok _ =>
  rw [hway'] at h
  dsimp only [Except.map] at h
  rw [run_bind, target_run] at h
  cases hsource : v.locate source with
  | error e =>
    rw [hsource] at h
    cases h
  | ok t' =>
  obtain rfl := hs t' hsource
  rw [hsource] at h
  dsimp only [Except.map] at h
  cases hnode : v.node? s with
  | none =>
    rw [hnode] at h
    cases h
  | some n =>
  rw [hnode] at h
  have h : ((target goal) >>= _).run.run v = _ := h
  rw [run_bind, target_run] at h
  cases hgoal : v.locate goal with
  | error e =>
    rw [hgoal] at h
    cases h
  | ok t' =>
  obtain rfl := ht t' hgoal
  rw [hgoal] at h
  dsimp only [Except.map] at h
  cases htaken : v.node? t with
  | none =>
    rw [htaken] at h
    cases n with
    | file id =>
      cases h
      exact hmoved v
    | directory =>
      dsimp only at h
      split at h
      · cases h
      · cases h
        exact hmoved v
  | some taken =>
    rw [htaken] at h
    cases n with
    | file id =>
      cases taken with
      | directory => cases h
      | file id' =>
        dsimp only at h
        simp only [hne] at h
        cases h
        exact hmoved _
    | directory =>
      cases taken with
      | file id' => cases h
      | directory =>
        dsimp only at h
        rw [if_neg hne] at h
        split at h
        · cases h
        rw [run_get_bind] at h
        split at h
        · cases h
        · cases h
          exact hmoved _

/-- What was opened stands at the end of its path, and everything else where it stood. -/
theorem openOrCreate_made {id : FileId} (h : (openOrCreate path).run.run v = (.ok id, v')) :
    ∃ t, v'.locate path = .ok t ∧ v'.node? t.place = some (.file id) ∧
      ∀ q n, v.node? q = some n → v'.node? q = some n := by
  unfold openOrCreate at h
  rw [run_bind, target_run] at h
  cases hlocate : v.locate path with
  | error e =>
    rw [hlocate] at h
    cases h
  | ok t =>
    rw [hlocate] at h
    dsimp only [Except.map] at h
    cases hnode : v.node? t.place with
    | none =>
      rw [hnode] at h
      dsimp only at h
      split at h
      · cases h
      cases h
      have hsame : ∀ q, Volume.node? { v.insert t.place (.file v.contents.size) with
          contents := v.contents.push ByteArray.empty } q =
            if q = t.place then some (.file v.contents.size) else v.node? q := by
        intro q
        rw [← Volume.node?_insert hnode]
        cases q <;> rfl
      refine ⟨t, Volume.locate_congr hlocate fun q hq => ?_, ?_, fun q n hq => ?_⟩
      · rw [hsame, if_neg (Volume.ne_of_free hnode (Volume.directory_of_passes hlocate q hq))]
      · rw [hsame, if_pos rfl]
      · rw [hsame, if_neg (Volume.ne_of_free hnode hq), hq]
    | some n =>
      rw [hnode] at h
      cases n with
      | directory => cases h
      | file id' =>
        dsimp only at h
        split at h
        · cases h
        cases h
        exact ⟨t, hlocate, hnode, fun q n hq => hq⟩

/-! ## Making directories -/

theorem makeDirectory_made (h : (makeDirectory path).run.run v = (.ok (), v')) :
    v'.isDirectory path = true := by
  unfold makeDirectory at h
  rw [run_bind, target_run] at h
  cases hlocate : v.locate path with
  | error e =>
    rw [hlocate] at h
    cases h
  | ok t =>
    rw [hlocate] at h
    dsimp only [Except.map] at h
    cases hnode : v.node? t.place with
    | some n =>
      rw [hnode] at h
      cases h
    | none =>
      rw [hnode] at h
      cases h
      refine Volume.isDirectory_iff.mpr ⟨t, Volume.locate_congr hlocate fun q hq => ?_, ?_⟩
      · have hdir := Volume.directory_of_passes hlocate q hq
        rw [Volume.node?_insert hnode, if_neg (Volume.ne_of_free hnode hdir)]
      · rw [Volume.node?_insert hnode, if_pos rfl]

/-- A directory that is there is not made again. -/
theorem makeDirectory_again (h : v.isDirectory path = true) :
    (makeDirectory path).run.run v = (.error .alreadyExists, v) := by
  obtain ⟨t, hlocate, hnode⟩ := Volume.isDirectory_iff.mp h
  unfold makeDirectory
  rw [run_bind, target_run, hlocate]
  dsimp only [Except.map]
  rw [hnode]
  rfl

/-- A failure to make a directory. -/
def settle (path : String) (e : FileError) : FileAction Unit := do
  if !(← get).isDirectory path then throw e

theorem settle_run (path : String) (e : FileError) (v : Volume) : (settle path e).run.run v =
    (if v.isDirectory path = true then .ok () else .error e, v) := by
  unfold settle
  rw [run_get_bind]
  cases v.isDirectory path <;> rfl

theorem makeDirectoryAfter_eq (path : String) (before : FileAction Unit) :
    makeDirectoryAfter path before = tryCatch (makeDirectory path) fun e =>
      if e = .notFound then before >>= fun _ => tryCatch (makeDirectory path) (settle path)
      else settle path e := rfl

theorem settle_made {e : FileError} (h : (settle path e).run.run v = (.ok (), v')) :
    v'.isDirectory path = true := by
  rw [settle_run] at h
  split at h
  · rename_i hdir
    cases h
    exact hdir
  · cases h

theorem tryCatch_made {handle : FileError → FileAction Unit}
    (hhandle : ∀ e v, (handle e).run.run v = (.ok (), v') → v'.isDirectory path = true)
    (h : (tryCatch (makeDirectory path) handle).run.run v = (.ok (), v')) :
    v'.isDirectory path = true := by
  rcases hmake : (makeDirectory path).run.run v with ⟨e | _, v1⟩
  · rw [run_tryCatch_error hmake] at h
    exact hhandle e v1 h
  · rw [run_tryCatch_ok hmake] at h
    cases h
    exact makeDirectory_made hmake

theorem makeDirectoryAfter_made {before : FileAction Unit}
    (h : (makeDirectoryAfter path before).run.run v = (.ok (), v')) :
    v'.isDirectory path = true := by
  rw [makeDirectoryAfter_eq] at h
  refine tryCatch_made (fun e v1 hrun => ?_) h
  split at hrun
  · obtain ⟨_, v2, -, hmake⟩ := run_bind_eq_ok.mp hrun
    exact tryCatch_made (fun e v3 => settle_made) hmake
  · exact settle_made hrun

/-- Making a directory makes it, unless its path names nothing. -/
theorem makeDirectoryAll_made (h : (makeDirectoryAll path).run.run v = (.ok (), v')) :
    (Path.ofText path).steps = [] ∨ v'.isDirectory path = true := by
  unfold makeDirectoryAll at h
  dsimp only at h
  split at h
  · rename_i hsteps
    exact Or.inl (List.reverse_eq_nil_iff.mp hsteps)
  · exact Or.inr (makeDirectoryAfter_made h)

/-- A directory that is there is not made, nor is anything else. -/
theorem makeDirectoryAll_again
    (h : (Path.ofText path).steps = [] ∨ v.isDirectory path = true) :
    (makeDirectoryAll path).run.run v = (.ok (), v) := by
  unfold makeDirectoryAll
  dsimp only
  split
  · rfl
  · rename_i hsteps
    have hdir : v.isDirectory path = true := by
      refine h.resolve_left fun hnil => ?_
      rw [hnil] at hsteps
      cases hsteps
    rw [makeDirectoryAfter_eq, run_tryCatch_error (makeDirectory_again hdir),
      if_neg (by decide), settle_run, if_pos hdir]

end FileAction

end Pinboard.Files
