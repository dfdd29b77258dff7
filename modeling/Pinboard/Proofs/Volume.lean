import Pinboard.Files.Volume

/-!
# What actions do to a volume

A path leads to a place by way of directories. As long as these stay, it leads there whatever else
happens in the volume; what an action does is then told place by place, and no path has to be
followed again.
-/

namespace Pinboard.Files

/-! ## What comes of an action -/

namespace FileAction

variable {α β : Type}

theorem run_bind (act : FileAction α) (next : α → FileAction β) (v : Volume) :
    (act >>= next).run.run v =
      match act.run.run v with
      | (.ok a, v') => (next a).run.run v'
      | (.error e, v') => (.error e, v') := by
  rw [ExceptT.run_bind, StateT.run_bind]
  rcases h : act.run.run v with ⟨e | a, v'⟩ <;> rfl

theorem run_bind_ok {act : FileAction α} {next : α → FileAction β} {v v' : Volume} {a : α}
    (h : act.run.run v = (.ok a, v')) : (act >>= next).run.run v = (next a).run.run v' := by
  rw [run_bind, h]

theorem run_bind_error {act : FileAction α} {next : α → FileAction β} {v v' : Volume}
    {e : FileError} (h : act.run.run v = (.error e, v')) :
    (act >>= next).run.run v = (.error e, v') := by
  rw [run_bind, h]

theorem run_get_bind (next : Volume → FileAction β) (v : Volume) :
    (get >>= next).run.run v = (next v).run.run v := rfl

end FileAction

/-! ## What stands where -/

namespace Volume

theorem node?_eq_findSome? (v : Volume) {q : Place} (hq : q ≠ []) :
    v.node? q = v.nodes.findSome? fun n => if (q == n.1) = true then some n.2 else none := by
  rw [← List.lookup_eq_findSome?]
  cases q with
  | nil => exact absurd rfl hq
  | cons name names => rfl

theorem ne_nil_of_node?_none {v : Volume} {q : Place} (h : v.node? q = none) : q ≠ [] := by
  rintro rfl
  cases h

/-- Nothing but what was inserted is new. -/
theorem node?_insert {v : Volume} {place : Place} {n : Node} (hfree : v.node? place = none)
    (q : Place) : (v.insert place n).node? q = if q = place then some n else v.node? q := by
  have hplace := ne_nil_of_node?_none hfree
  by_cases hq : q = []
  · subst hq
    rw [if_neg (Ne.symm hplace)]
    rfl
  rw [node?_eq_findSome? _ hq, insert, List.findSome?_append, ← node?_eq_findSome? v hq]
  by_cases hqp : q = place
  · subst hqp
    rw [hfree, if_pos rfl]
    simp
  · rw [if_neg hqp]
    simp [hqp]

theorem findSome?_congr {α β : Type} {f g : α → Option β} {l : List α}
    (h : ∀ a ∈ l, f a = g a) : l.findSome? f = l.findSome? g := by
  induction l with
  | nil => rfl
  | cons a l ih =>
    rw [List.findSome?_cons, List.findSome?_cons, h a List.mem_cons_self,
      ih fun b hb => h b (List.mem_cons_of_mem _ hb)]

/-- Nothing but what was erased is gone. -/
theorem node?_erase (v : Volume) {place : Place} (hplace : place ≠ []) (q : Place) :
    (v.erase place).node? q = if q = place then none else v.node? q := by
  by_cases hq : q = []
  · subst hq
    rw [if_neg (Ne.symm hplace)]
    rfl
  rw [node?_eq_findSome? _ hq, node?_eq_findSome? _ hq, erase]
  by_cases hqp : q = place
  · subst hqp
    rw [if_pos rfl, List.findSome?_eq_none_iff]
    intro n hn
    have hne : n.1 ≠ q := by simpa using (List.mem_filter.mp hn).2
    simp [Ne.symm hne]
  · rw [if_neg hqp]
    dsimp only
    induction v.nodes with
    | nil => rfl
    | cons n nodes ih =>
      by_cases hn : n.1 = place
      · have hqn : q ≠ n.1 := fun h => hqp (h.trans hn)
        rw [List.filter_cons_of_neg (by simpa using hn), ih, List.findSome?_cons]
        simp [hqn]
      · rw [List.filter_cons_of_pos (by simpa using hn), List.findSome?_cons, List.findSome?_cons,
          ih]

theorem ne_of_node?_none {v : Volume} {q : Place} (h : v.node? q = none) :
    ∀ m ∈ v.nodes, m.1 ≠ q := by
  rw [node?_eq_findSome? v (ne_nil_of_node?_none h), List.findSome?_eq_none_iff] at h
  intro m hm hmq
  have := h m hm
  simp [hmq] at this

section Move

variable (v : Volume) {source target q : Place}

/-- What stands neither at or below the old place nor at or below the new one stays. -/
theorem node?_moveNode_other (hs : ¬ source <+: q) (ht : ¬ target <+: q) :
    (v.moveNode source target).node? q = v.node? q := by
  by_cases hq : q = []
  · subst hq
    rfl
  rw [node?_eq_findSome? _ hq, node?_eq_findSome? _ hq, moveNode, List.findSome?_map]
  refine findSome?_congr fun n _ => ?_
  rw [Function.comp_apply]
  by_cases hn : source <+: n.1
  · have hnew : q ≠ target ++ n.1.drop source.length := by
      rintro rfl
      exact ht (List.prefix_append _ _)
    have hold : q ≠ n.1 := by
      rintro rfl
      exact hs hn
    rw [if_pos (List.isPrefixOf_iff_prefix.mpr hn)]
    simp [hnew, hold]
  · rw [if_neg (mt List.isPrefixOf_iff_prefix.mp hn)]

/-- What stood at the old place stands at the new one, which was free. -/
theorem node?_moveNode_target (hsource : source ≠ []) (hfree : v.node? target = none) :
    (v.moveNode source target).node? target = v.node? source := by
  have htarget := ne_nil_of_node?_none hfree
  rw [node?_eq_findSome? _ htarget, node?_eq_findSome? _ hsource, moveNode, List.findSome?_map]
  refine findSome?_congr fun n hn => ?_
  rw [Function.comp_apply]
  by_cases hpre : source <+: n.1
  · obtain ⟨rest, hrest⟩ := hpre
    have hdrop : n.1.drop source.length = rest := by
      rw [← hrest, List.drop_left]
    rw [if_pos (List.isPrefixOf_iff_prefix.mpr ⟨rest, hrest⟩), hdrop, ← hrest]
    cases rest with
    | nil => simp
    | cons name names =>
      have hlong : ∀ place : Place, place ≠ place ++ name :: names := by
        intro place h
        have := congrArg List.length h
        simp at this
      simp [hlong]
  · have hother : source ≠ n.1 := by
      rintro rfl
      exact hpre (List.prefix_refl _)
    have htaken : target ≠ n.1 := Ne.symm (ne_of_node?_none hfree n hn)
    rw [if_neg (mt List.isPrefixOf_iff_prefix.mp hpre)]
    simp [hother, htaken]

/-- The old place is free. -/
theorem node?_moveNode_source (hsource : source ≠ []) (ht : ¬ target <+: source) :
    (v.moveNode source target).node? source = none := by
  rw [node?_eq_findSome? _ hsource, moveNode, List.findSome?_map, List.findSome?_eq_none_iff]
  intro n _
  rw [Function.comp_apply]
  by_cases hn : source <+: n.1
  · have hnew : source ≠ target ++ n.1.drop source.length := by
      intro h
      exact ht ⟨_, h.symm⟩
    rw [if_pos (List.isPrefixOf_iff_prefix.mpr hn)]
    simp [hnew]
  · have hold : source ≠ n.1 := by
      rintro rfl
      exact hn (List.prefix_refl _)
    rw [if_neg (mt List.isPrefixOf_iff_prefix.mp hn)]
    simp [hold]

end Move

theorem content_setContent (v : Volume) {id : FileId} (bytes : ByteArray)
    (hid : id < v.contents.size) (id' : FileId) :
    (v.setContent id bytes).content id' = if id' = id then bytes else v.content id' := by
  unfold content setContent
  by_cases h : id' = id
  · subst h
    simp [hid]
  · simp [h, Array.getD_eq_getD_getElem?, Ne.symm h]

theorem content_push (v : Volume) {id : FileId} (hid : id < v.contents.size) {v' : Volume}
    (h : v'.contents = v.contents.push ByteArray.empty) : v'.content id = v.content id := by
  unfold content
  rw [h]
  simp [Array.getD_eq_getD_getElem?, Array.getElem?_push, Nat.ne_of_lt hid]

theorem content_push_new {v v' : Volume} (h : v'.contents = v.contents.push ByteArray.empty) :
    v'.content v.contents.size = ByteArray.empty := by
  unfold content
  rw [h]
  simp [Array.getD_eq_getD_getElem?]

/-! ## The way to a name -/

/-- Where a name leads from a place. -/
def next (place : Place) (name : String) : Place :=
  if name = "." then place else if name = ".." then place.dropLast else place ++ [name]

/-- The places that names lead to, one after another. -/
def passed (place : Place) : List String → List Place
  | [] => []
  | name :: names => next place name :: passed (next place name) names

/-- The directories on the way to the last name of a path. -/
def passes (path : String) : List Place :=
  let p := Path.ofText path
  passed (if p.absolute then [] else home) p.names.dropLast

theorem walk_cons (v : Volume) (place : Place) (name : String) (names : List String) :
    v.walk place (name :: names) =
      if name.utf8ByteSize > longestName then .error .nameTooLong
      else match v.node? (next place name) with
        | none => .error .notFound
        | some (.file _) => .error .notADirectory
        | some .directory => v.walk (next place name) names := rfl

/-- A walk that comes to its end passes directories only. -/
theorem directory_of_passed {v : Volume} {place d : Place} {names : List String}
    (h : v.walk place names = .ok d) :
    ∀ q ∈ passed place names, v.node? q = some .directory := by
  induction names generalizing place with
  | nil =>
    intro q hq
    cases hq
  | cons name names ih =>
    rw [walk_cons] at h
    split at h
    · cases h
    · split at h
      · cases h
      · cases h
      · rename_i hnode
        intro q hq
        rcases List.mem_cons.mp hq with rfl | hq
        · exact hnode
        · exact ih h q hq

/-- A walk that never turns back goes down towards its end. -/
theorem prefix_of_passed {v : Volume} {place d : Place} {names : List String}
    (h : v.walk place names = .ok d) (hup : ".." ∉ names) :
    place <+: d ∧ ∀ q ∈ passed place names, q <+: d := by
  induction names generalizing place with
  | nil =>
    cases h
    exact ⟨List.prefix_refl _, fun q hq => by cases hq⟩
  | cons name names ih =>
    obtain ⟨hname, hup⟩ := not_or.mp (mt List.mem_cons.mpr hup)
    have hdown : place <+: next place name := by
      unfold next
      rw [if_neg (Ne.symm hname)]
      split
      · exact List.prefix_refl _
      · exact List.prefix_append _ _
    rw [walk_cons] at h
    split at h
    · cases h
    split at h
    · cases h
    · cases h
    · obtain ⟨hnext, hrest⟩ := ih h hup
      exact ⟨hdown.trans hnext, List.forall_mem_cons.mpr ⟨hnext, hrest⟩⟩

/-- Where the directories that were passed still stand, the same walk comes to the same end. -/
theorem walk_congr {v v' : Volume} {place d : Place} {names : List String}
    (h : v.walk place names = .ok d)
    (hsame : ∀ q ∈ passed place names, v'.node? q = v.node? q) : v'.walk place names = .ok d := by
  induction names generalizing place with
  | nil => exact h
  | cons name names ih =>
    rw [walk_cons] at h ⊢
    rw [hsame (next place name) List.mem_cons_self]
    split at h
    · cases h
    · rename_i hshort
      rw [if_neg hshort]
      split at h
      · cases h
      · cases h
      · exact ih h fun q hq => hsame q (List.mem_cons_of_mem _ hq)

/-- A path leads to a place by the directories before its last name. -/
theorem approach_eq_ok {v : Volume} {path last : String} {t : Target}
    (h : v.approach path = .ok t) (hlast : (Path.ofText path).names.getLast? = some last) :
    ∃ d, v.walk (if (Path.ofText path).absolute then [] else home)
        (Path.ofText path).names.dropLast = .ok d ∧
      t = if last = "." then ⟨d, true⟩ else if last = ".." then ⟨d.dropLast, true⟩
        else ⟨d ++ [last], (Path.ofText path).trailing⟩ := by
  unfold approach at h
  simp only [hlast] at h
  split at h
  · cases h
  split at h
  · cases h
  split at h
  · cases h
  split at h
  · cases h
  rename_i d hwalk
  refine ⟨d, hwalk, ?_⟩
  by_cases hdot : last = "."
  · rw [if_pos hdot] at h ⊢
    exact (Except.ok.inj h).symm
  rw [if_neg hdot] at h ⊢
  by_cases hup : last = ".."
  · rw [if_pos hup] at h ⊢
    exact (Except.ok.inj h).symm
  · rw [if_neg hup] at h ⊢
    exact (Except.ok.inj h).symm

/-- Where the directories on the way still stand, a path leads to the same place. -/
theorem approach_congr {v v' : Volume} {path : String} {t : Target}
    (h : v.approach path = .ok t) (hsame : ∀ q ∈ passes path, v'.node? q = v.node? q) :
    v'.approach path = .ok t := by
  cases hlast : (Path.ofText path).names.getLast? with
  | none =>
    unfold approach at h ⊢
    simp only [hlast] at h ⊢
    exact h
  | some last =>
    obtain ⟨d, hwalk, -⟩ := approach_eq_ok h hlast
    have hwalk' := walk_congr hwalk hsame
    unfold approach at h ⊢
    simp only [hlast, hwalk, hwalk'] at h ⊢
    exact h

theorem locate_eq_ok {v : Volume} {path : String} {t : Target} : v.locate path = .ok t ↔
    v.approach path = .ok t ∧ t.nameLength ≤ longestName := by
  unfold locate
  cases v.approach path with
  | error e => simp
  | ok t' =>
    dsimp only
    by_cases hlong : t'.nameLength > longestName
    · rw [if_pos hlong]
      constructor
      · intro h
        cases h
      · rintro ⟨h, hle⟩
        cases h
        exact absurd hlong (Nat.not_lt.mpr hle)
    · rw [if_neg hlong]
      constructor
      · intro h
        cases h
        exact ⟨rfl, Nat.le_of_not_lt hlong⟩
      · exact fun h => h.1

/-- Where the directories on the way still stand, a path leads to the same place. -/
theorem locate_congr {v v' : Volume} {path : String} {t : Target} (h : v.locate path = .ok t)
    (hsame : ∀ q ∈ passes path, v'.node? q = v.node? q) : v'.locate path = .ok t := by
  obtain ⟨happroach, hshort⟩ := locate_eq_ok.mp h
  exact locate_eq_ok.mpr ⟨approach_congr happroach hsame, hshort⟩

/-! ## What a path leads to -/

theorem find?_of_locate {v : Volume} {path : String} {place : Place}
    (h : v.locate path = .ok ⟨place, false⟩) : v.find? path = v.node? place := by
  unfold find?
  rw [h]
  dsimp only
  split
  · rename_i hnode
    rw [hnode]
    rfl
  · rfl

theorem exists?_of_locate {v : Volume} {path : String} {place : Place}
    (h : v.locate path = .ok ⟨place, false⟩) : v.exists? path = (v.node? place).isSome := by
  unfold exists?
  rw [find?_of_locate h]

end Volume

/-! ## Actions by place -/

namespace FileAction

variable {v : Volume} {path : String} {place : Place}

theorem target_run (path : String) (v : Volume) :
    (target path).run.run v = ((v.locate path).map fun t => (t, v.node? t.place), v) := by
  unfold target
  rw [run_get_bind]
  cases v.locate path <;> rfl

theorem target_ok (h : v.locate path = .ok ⟨place, false⟩) :
    (target path).run.run v = (.ok (⟨place, false⟩, v.node? place), v) := by
  rw [target_run, h]
  rfl

theorem approach_ok {t : Volume.Target} (h : v.locate path = .ok t) :
    (approach path).run.run v = (.ok (), v) := by
  unfold approach
  rw [run_get_bind, (Volume.locate_eq_ok.mp h).1]
  rfl

/-- A file that is there is removed. -/
theorem removeFile_file {id : FileId} (h : v.locate path = .ok ⟨place, false⟩)
    (hnode : v.node? place = some (.file id)) :
    (removeFile path).run.run v = (.ok (), v.erase place) := by
  unfold removeFile
  rw [run_bind_ok (target_ok h), hnode]
  rfl

/-- A directory is no file to remove. -/
theorem removeFile_directory (h : v.locate path = .ok ⟨place, false⟩)
    (hnode : v.node? place = some .directory) :
    (removeFile path).run.run v = (.error .isADirectory, v) := by
  unfold removeFile
  rw [run_bind_ok (target_ok h), hnode]
  rfl

/-- A file that is there is read. -/
theorem readAll_file {id : FileId} (h : v.locate path = .ok ⟨place, false⟩)
    (hnode : v.node? place = some (.file id)) :
    (readAll path).run.run v = (.ok (v.content id), v) := by
  unfold readAll
  rw [run_bind_ok (target_ok h), hnode]
  rfl

/-- A file that is there is opened. -/
theorem openOrCreate_file {id : FileId} (h : v.locate path = .ok ⟨place, false⟩)
    (hnode : v.node? place = some (.file id)) :
    (openOrCreate path).run.run v = (.ok id, v) := by
  unfold openOrCreate
  rw [run_bind_ok (target_ok h), hnode]
  rfl

/-- Where nothing is, an empty file with a new number is made. -/
theorem openOrCreate_free (h : v.locate path = .ok ⟨place, false⟩)
    (hnode : v.node? place = none) :
    (openOrCreate path).run.run v = (.ok v.contents.size,
      { v.insert place (.file v.contents.size) with
        contents := v.contents.push ByteArray.empty }) := by
  unfold openOrCreate
  rw [run_bind_ok (target_ok h), hnode]
  rfl

/-- What is there, file or directory, moves to a place that is free and not below it. -/
theorem rename_free {source goal : String} {s t : Place}
    (hs : v.locate source = .ok ⟨s, false⟩) (ht : v.locate goal = .ok ⟨t, false⟩)
    (hnode : (v.node? s).isSome) (hfree : v.node? t = none) (hbelow : ¬ s <+: t) :
    (rename source goal).run.run v = (.ok (), v.moveNode s t) := by
  obtain ⟨n, hn⟩ := Option.isSome_iff_exists.mp hnode
  unfold rename
  rw [run_bind_ok (approach_ok hs), run_bind_ok (approach_ok ht), run_bind_ok (target_ok hs), hn]
  show ((target goal) >>= _).run.run v = _
  rw [run_bind_ok (target_ok ht), hfree]
  cases n with
  | file id => rfl
  | directory =>
    have hdown : s.isPrefixOf t = false := by
      rw [← Bool.not_eq_true]
      exact mt List.isPrefixOf_iff_prefix.mp hbelow
    simp only [hdown]
    rfl

/-- What is not there cannot be renamed. -/
theorem rename_missing {source goal : String} {s t : Place}
    (hs : v.locate source = .ok ⟨s, false⟩) (ht : v.locate goal = .ok ⟨t, false⟩)
    (hnode : v.node? s = none) : (rename source goal).run.run v = (.error .notFound, v) := by
  unfold rename
  rw [run_bind_ok (approach_ok hs), run_bind_ok (approach_ok ht), run_bind_ok (target_ok hs), hnode]
  rfl

end FileAction

/-! ## Open files -/

namespace OpenFile

/-- An open file can always be written to. -/
theorem write_ok (f : OpenFile) (bytes : ByteArray) (v : Volume) :
    ∃ f' v', (f.write bytes).run.run v = (.ok f', v') := by
  unfold write
  split
  · exact ⟨_, _, rfl⟩
  · rw [FileAction.run_get_bind]
    split <;> exact ⟨_, _, rfl⟩

/-- The next write to an open file goes to its end. -/
def AtEnd (f : OpenFile) (v : Volume) : Prop :=
  f.appending = true ∨ f.offset = (v.content f.file).size

theorem overwrite_end (old new : ByteArray) : overwrite old old.size new = old ++ new := by
  unfold overwrite
  have hgap : ByteArray.mk (Array.replicate (old.size - old.size) 0) = ByteArray.empty := by
    rw [Nat.sub_self]
    rfl
  rw [hgap, ByteArray.append_empty]
  simp

/-- What is written at the end of a file comes behind what it holds, and no other file changes. -/
theorem write_end {f : OpenFile} {v : Volume} (hend : AtEnd f v) (hf : f.file < v.contents.size)
    (bytes : ByteArray) :
    ∃ f' v', (f.write bytes).run.run v = (.ok f', v') ∧ f'.file = f.file ∧ AtEnd f' v' ∧
      v'.nodes = v.nodes ∧ v'.contents.size = v.contents.size ∧
      ∀ id, v'.content id = if id = f.file then v.content id ++ bytes else v.content id := by
  unfold write
  by_cases hempty : bytes.isEmpty = true
  · have hbytes : bytes = ByteArray.empty := by
      unfold ByteArray.isEmpty at hempty
      exact ByteArray.size_eq_zero_iff.mp (beq_iff_eq.mp hempty)
    rw [if_pos hempty]
    refine ⟨f, v, rfl, rfl, hend, rfl, rfl, fun id => ?_⟩
    rw [hbytes, ByteArray.append_empty, ite_self]
  · rw [if_neg hempty, FileAction.run_get_bind]
    have hcontent : ∀ new id, (v.setContent f.file new).content id =
        if id = f.file then new else v.content id :=
      fun new id => Volume.content_setContent v new hf id
    have hsize : ∀ new, (v.setContent f.file new).contents.size = v.contents.size := by
      intro new
      simp [Volume.setContent]
    by_cases happending : f.appending = true
    · rw [if_pos happending]
      refine ⟨f, _, rfl, rfl, Or.inl happending, rfl, hsize _, fun id => ?_⟩
      rw [hcontent]
      split
      · rename_i hid
        rw [hid]
      · rfl
    · rw [if_neg happending]
      have hoffset : f.offset = (v.content f.file).size := hend.resolve_left happending
      rw [hoffset, overwrite_end]
      refine ⟨_, _, rfl, rfl, Or.inr ?_, rfl, hsize _, fun id => ?_⟩
      · show _ + bytes.size = ((v.setContent f.file _).content f.file).size
        rw [hcontent, if_pos rfl, ByteArray.size_append]
      · rw [hcontent]
        split
        · rename_i hid
          rw [hid]
        · rfl

end OpenFile

end Pinboard.Files
