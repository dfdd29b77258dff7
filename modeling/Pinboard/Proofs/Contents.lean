import Pinboard.Proofs.Volume

/-!
# Actions that spare contents

Most actions on files are about names: they make, move and remove them, and open files that are
there or make empty ones. What the files hold is none of their business. An action that `Spares`
contents does so whatever stands in the volume and however far it comes before it fails, so that a
chain of such actions spares them too.
-/

namespace Pinboard.Files

namespace Volume

/-- Each name of a file stands for a file that there is. -/
def Backed (v : Volume) : Prop := ∀ n ∈ v.nodes, ∀ id, n.2 = .file id → id < v.contents.size

/-- Names may have come and gone, and empty files may have been made; each file holds the same. -/
structure Rearranged (v v' : Volume) : Prop where
  /-- No file is lost. -/
  size : v.contents.size ≤ v'.contents.size
  /-- Each holds what it held. -/
  content : ∀ id, v'.content id = v.content id
  /-- Names stand for files that there are, if they did before. -/
  backed : v.Backed → v'.Backed

variable {v v' v'' : Volume}

theorem Rearranged.refl (v : Volume) : v.Rearranged v := ⟨Nat.le_refl _, fun _ => rfl, id⟩

theorem Rearranged.trans (h : v.Rearranged v') (h' : v'.Rearranged v'') : v.Rearranged v'' :=
  ⟨Nat.le_trans h.size h'.size, fun id => (h'.content id).trans (h.content id),
    h'.backed ∘ h.backed⟩

theorem Backed.lt (h : v.Backed) {place : Place} {id : FileId}
    (hnode : v.node? place = some (.file id)) : id < v.contents.size := by
  have hplace : place ≠ [] := by
    rintro rfl
    cases hnode
  rw [node?_eq_findSome? v hplace] at hnode
  obtain ⟨n, hn, hsome⟩ := List.exists_of_findSome?_eq_some hnode
  split at hsome
  · exact h n hn id (Option.some.inj hsome)
  · cases hsome

theorem rearranged_erase (v : Volume) (place : Place) : v.Rearranged (v.erase place) :=
  ⟨Nat.le_refl _, fun _ => rfl, fun h n hn => h n (List.mem_filter.mp hn).1⟩

theorem rearranged_moveNode (v : Volume) (source target : Place) :
    v.Rearranged (v.moveNode source target) := by
  refine ⟨Nat.le_refl _, fun _ => rfl, fun h n hn id hid => ?_⟩
  obtain ⟨m, hm, rfl⟩ := List.mem_map.mp hn
  refine h m hm id ?_
  rw [← hid]
  split <;> rfl

theorem rearranged_insert_directory (v : Volume) (place : Place) :
    v.Rearranged (v.insert place .directory) := by
  refine ⟨Nat.le_refl _, fun _ => rfl, fun h n hn id hid => ?_⟩
  rcases List.mem_append.mp hn with hn | hn
  · exact h n hn id hid
  · rw [List.mem_singleton.mp hn] at hid
    cases hid

/-- A new file is empty, and so is what is said of a file that is not there. -/
theorem rearranged_new_file (v : Volume) (place : Place) :
    v.Rearranged { v.insert place (.file v.contents.size) with
      contents := v.contents.push ByteArray.empty } := by
  have hsize : v.contents.size < (v.contents.push ByteArray.empty).size := by
    rw [Array.size_push]
    exact Nat.lt_succ_self _
  refine ⟨?_, fun id => ?_, fun h n hn id hid => ?_⟩
  · exact Nat.le_of_lt hsize
  · by_cases hlt : id < v.contents.size
    · exact content_push v hlt rfl
    · have hnone : v.contents.size ≤ id := Nat.le_of_not_lt hlt
      unfold content
      rw [Array.getD_eq_getD_getElem?, Array.getD_eq_getD_getElem?, Array.getElem?_push,
        Array.getElem?_eq_none hnone]
      split <;> rfl
  · rcases List.mem_append.mp hn with hn | hn
    · exact Nat.lt_trans (h n hn id hid) hsize
    · rw [List.mem_singleton.mp hn] at hid
      cases hid
      exact hsize

end Volume

namespace FileAction

variable {α β : Type}

/-- Whatever comes of it, the action leaves to each file what it holds. -/
def Spares (act : FileAction α) : Prop := ∀ v : Volume, v.Rearranged (act.run.run v).2

/-! ## Chains of actions -/

theorem run_bind_eq_ok {act : FileAction α} {next : α → FileAction β} {v v' : Volume} {b : β} :
    (act >>= next).run.run v = (.ok b, v') ↔
      ∃ a v1, act.run.run v = (.ok a, v1) ∧ (next a).run.run v1 = (.ok b, v') := by
  rw [run_bind]
  rcases act.run.run v with ⟨e | a, v1⟩
  · constructor
    · intro h
      cases h
    · rintro ⟨a, v1, h, -⟩
      cases h
  · constructor
    · exact fun h => ⟨a, v1, rfl, h⟩
    · rintro ⟨a', v1', h, h'⟩
      cases h
      exact h'

theorem Spares.pure (a : α) : Spares (pure a : FileAction α) := Volume.Rearranged.refl

theorem Spares.throw (e : FileError) : Spares (throw e : FileAction α) := Volume.Rearranged.refl

theorem Spares.bind {act : FileAction α} {next : α → FileAction β} (h : act.Spares)
    (hnext : ∀ a, (next a).Spares) : (act >>= next).Spares := by
  intro v
  have hfirst := h v
  rw [run_bind]
  rcases hrun : act.run.run v with ⟨e | a, v'⟩ <;> rw [hrun] at hfirst
  · exact hfirst
  · exact hfirst.trans (hnext a v')

/-- Where an action stops at once, nothing that it would do next matters. -/
theorem Spares.unless {c : Prop} [Decidable c] {e : FileError} {next : β → FileAction α}
    {act : FileAction α} (h : act.Spares) :
    (if c then MonadExcept.throw e >>= next else act).Spares := by
  split
  · exact Volume.Rearranged.refl
  · exact h

theorem Spares.get_bind {next : Volume → FileAction β} (hnext : ∀ v, (next v).Spares) :
    (get >>= next).Spares := fun v => hnext v v

theorem Spares.modify {f : Volume → Volume} (h : ∀ v : Volume, v.Rearranged (f v)) :
    Spares (modify f : FileAction Unit) := h

theorem run_tryCatch_ok {act : FileAction α} {handle : FileError → FileAction α} {v v' : Volume}
    {a : α} (h : act.run.run v = (.ok a, v')) :
    (tryCatch act handle).run.run v = (.ok a, v') := by
  show (ExceptT.tryCatch act handle).run.run v = _
  unfold ExceptT.tryCatch
  show ((act.run >>= _ : StateM Volume _)).run v = _
  rw [StateT.run_bind, h]
  rfl

theorem run_tryCatch_error {act : FileAction α} {handle : FileError → FileAction α}
    {v v' : Volume} {e : FileError} (h : act.run.run v = (.error e, v')) :
    (tryCatch act handle).run.run v = (handle e).run.run v' := by
  show (ExceptT.tryCatch act handle).run.run v = _
  unfold ExceptT.tryCatch
  show ((act.run >>= _ : StateM Volume _)).run v = _
  rw [StateT.run_bind, h]
  rfl

theorem Spares.tryCatch {act : FileAction α} {handle : FileError → FileAction α} (h : act.Spares)
    (hhandle : ∀ e, (handle e).Spares) : (tryCatch act handle).Spares := by
  intro v
  have hfirst := h v
  rcases hrun : act.run.run v with ⟨e | a, v'⟩ <;> rw [hrun] at hfirst
  · rw [run_tryCatch_error hrun]
    exact hfirst.trans (hhandle e v')
  · rw [run_tryCatch_ok hrun]
    exact hfirst

/-! ## Single actions -/

theorem target_spares (path : String) : (target path).Spares := by
  intro v
  rw [target_run]
  exact .refl v

theorem approach_spares (path : String) : (approach path).Spares := by
  refine .get_bind fun v => ?_
  cases v.approach path with
  | error e => exact .throw e
  | ok t => exact .pure ()

theorem removeFile_spares (path : String) : (removeFile path).Spares := by
  refine (target_spares path).bind fun ⟨t, node⟩ => ?_
  rcases node with _ | _ | id
  · exact .throw _
  · exact .throw _
  · dsimp only
    split
    · exact .throw _
    · exact .modify fun v => Volume.rearranged_erase v t.place

theorem makeDirectory_spares (path : String) : (makeDirectory path).Spares := by
  refine (target_spares path).bind fun ⟨t, node⟩ => ?_
  rcases node with _ | _
  · exact .modify fun v => Volume.rearranged_insert_directory v t.place
  · exact .throw _

theorem rename_spares (source goal : String) : (rename source goal).Spares := by
  have hmove : ∀ s t : Place, Spares (modify fun v => v.moveNode s t) := fun s t =>
    .modify fun v => Volume.rearranged_moveNode v s t
  have htake : ∀ s t : Place, Spares (modify fun v => (v.erase t).moveNode s t) := fun s t =>
    .modify fun v => (Volume.rearranged_erase v t).trans (Volume.rearranged_moveNode _ s t)
  refine (approach_spares source).bind fun _ => (approach_spares goal).bind fun _ =>
    (target_spares source).bind fun ⟨s, there⟩ => .unless ?_
  refine (target_spares goal).bind fun ⟨t, taken⟩ => ?_
  rcases there with _ | _ | id <;> rcases taken with _ | _ | id'
  all_goals dsimp only
  · exact .throw _
  · exact .throw _
  · exact .throw _
  · exact .unless (hmove s.place t.place)
  · split
    · exact .pure ()
    · exact .unless (.get_bind fun v => .unless (htake s.place t.place))
  · exact .throw _
  · exact .unless (hmove s.place t.place)
  · exact .throw _
  · refine .unless ?_
    split
    · exact .pure ()
    · exact htake s.place t.place

theorem openOrCreate_spares (path : String) : (openOrCreate path).Spares := by
  refine (target_spares path).bind fun ⟨t, node⟩ => ?_
  rcases node with _ | _ | id
  · exact .unless fun v => Volume.rearranged_new_file v t.place
  · exact .throw _
  · exact .unless (.pure id)

/-- What is opened is there. -/
theorem openOrCreate_lt {path : String} {id : FileId} {v v' : Volume} (hv : v.Backed)
    (h : (openOrCreate path).run.run v = (.ok id, v')) : id < v'.contents.size := by
  unfold openOrCreate at h
  rw [run_bind, target_run] at h
  cases hlocate : v.locate path with
  | error e =>
    rw [hlocate] at h
    cases h
  | ok t =>
    rw [hlocate] at h
    dsimp only [Except.map] at h
    cases hnode : v.node? t.place with
    | none =>
      rw [hnode] at h
      dsimp only at h
      split at h
      · cases h
      · cases h
        show v.contents.size < (v.contents.push ByteArray.empty).size
        rw [Array.size_push]
        exact Nat.lt_succ_self _
    | some node =>
      rw [hnode] at h
      cases node with
      | directory => cases h
      | file id =>
        dsimp only at h
        split at h
        · cases h
        · cases h
          exact hv.lt hnode

theorem makeDirectoryAfter_spares {path : String} {before : FileAction Unit} (h : before.Spares) :
    (makeDirectoryAfter path before).Spares := by
  have hsettle : ∀ e : FileError, Spares (do if !(← get).isDirectory path then throw e) := by
    intro e
    refine .get_bind fun v => ?_
    split
    · exact .throw e
    · exact .pure ()
  refine .tryCatch (makeDirectory_spares path) fun e => ?_
  split
  · exact h.bind fun _ => .tryCatch (makeDirectory_spares path) hsettle
  · exact hsettle e

theorem makeDirectories_spares (absolute : Bool) (names : List String) :
    (makeDirectories absolute names).Spares := by
  induction names with
  | nil => exact .pure ()
  | cons name parents ih => exact makeDirectoryAfter_spares ih

theorem makeDirectoryAll_spares (path : String) : (makeDirectoryAll path).Spares := by
  unfold makeDirectoryAll
  dsimp only
  split
  · exact .pure ()
  · exact makeDirectoryAfter_spares (makeDirectories_spares _ _)

end FileAction

end Pinboard.Files
