import Pinboard.Proofs.Lines
import Pinboard.Workspace.Opening

/-!
# What opening a store does to the files

Opening a store reaches a file, tidies up beside it and makes a database of it, if it holds as good
as nothing; all other contents stay. It leaves the journal alone until the store is open, and then
notes it in one line.
-/

namespace Pinboard

open Files Log Store

namespace Files.Volume

/-- Each file holds what it held, or it held as good as nothing and is a database now. -/
structure Founded (v v' : Volume) : Prop where
  /-- No file has gone out of being. -/
  size : v.contents.size ≤ v'.contents.size
  /-- Names still lead to files that there are. -/
  backed : v.Backed → v'.Backed
  /-- A file that holds something else was as good as empty. -/
  content : ∀ id, v'.content id = v.content id ∨
    (v.content id).size ≤ 1 ∧ v'.content id = databaseImage

variable {v v' v'' : Volume}

theorem one_lt_size_databaseImage : 1 < databaseImage.size := by decide +kernel

theorem Rearranged.founded (h : v.Rearranged v') : v.Founded v' :=
  ⟨h.size, h.backed, fun id => Or.inl (h.content id)⟩

theorem Founded.trans (h : v.Founded v') (h' : v'.Founded v'') : v.Founded v'' := by
  refine ⟨Nat.le_trans h.size h'.size, h'.backed ∘ h.backed, fun id => ?_⟩
  have himage := one_lt_size_databaseImage
  rcases h.content id with hsame | ⟨hsmall, hnew⟩
  · rw [← hsame]
    exact h'.content id
  · rcases h'.content id with hsame | ⟨hsmall', -⟩
    · exact Or.inr ⟨hsmall, hsame.trans hnew⟩
    · rw [hnew] at hsmall'
      omega

/-- A file that holds as good as nothing becomes a database. -/
theorem founded_setContent {id : FileId} (hid : id < v.contents.size)
    (hsmall : (v.content id).size ≤ 1) : v.Founded (v.setContent id databaseImage) := by
  have hsize : (v.setContent id databaseImage).contents.size = v.contents.size := by
    simp [setContent]
  refine ⟨Nat.le_of_eq hsize.symm, fun hv n hn id' hid' => ?_, fun id' => ?_⟩
  · rw [hsize]
    exact hv n hn id' hid'
  · rw [content_setContent v databaseImage hid]
    split
    · rename_i hsame
      rw [hsame]
      exact Or.inr ⟨hsmall, rfl⟩
    · exact Or.inl rfl

theorem Backed.lt_of_find? (h : v.Backed) {path : String} {id : FileId}
    (hfound : v.find? path = some (.file id)) : id < v.contents.size := by
  unfold find? at hfound
  split at hfound
  · cases hfound
  · split at hfound
    · rename_i hnode
      split at hfound
      · cases hfound
      · cases hfound
        exact h.lt hnode
    · exact h.lt hfound

end Files.Volume

/-- The file that a link leads to, if it leads to one. -/
def Link.file? (l : Link) : Option FileId :=
  match l.backing with
  | .file id _ => some id
  | _ => none

theorem Link.file?_eq_some {l : Link} {id : FileId} :
    l.file? = some id ↔ ∃ place, l.backing = .file id place := by
  unfold Link.file?
  constructor
  · intro h
    split at h
    · rename_i place hbacking
      cases h
      exact ⟨place, hbacking⟩
    · cases h
  · rintro ⟨place, hbacking⟩
    rw [hbacking]

namespace Workspace

variable {w w' : Workspace}

/-- Nothing has changed but names of files. Seats do not count. -/
structure Reached (w w' : Workspace) : Prop where
  /-- The journal is the same. -/
  journal : w'.journal = w.journal
  /-- The databases in files are the same. -/
  databases : w'.databases = w.databases
  /-- Nothing was written to a file. -/
  volume : w.volume.Rearranged w'.volume

theorem Reached.refl (w : Workspace) : w.Reached w := ⟨rfl, rfl, .refl _⟩

theorem Reached.trans {w'' : Workspace} (h : w.Reached w') (h' : w'.Reached w'') :
    w.Reached w'' :=
  ⟨h'.journal.trans h.journal, h'.databases.trans h.databases, h.volume.trans h'.volume⟩

theorem Reached.hasDatabase (h : w.Reached w') (id : FileId) :
    w'.hasDatabase id = w.hasDatabase id := by
  unfold Workspace.hasDatabase
  rw [h.databases]

/-- The file that was opened is there. -/
theorem openFile_spec (w : Workspace) (hv : w.volume.Backed) (address : String) (access : Access)
    (path : String) :
    w.Reached (w.openFile address access path).2 ∧
      ∀ id place, (w.openFile address access path).1 = .ok (.file id place) →
        id < (w.openFile address access path).2.volume.contents.size := by
  have herror : ∀ e : ReachError, w.Reached w ∧ ∀ id place,
      (.error e : Except ReachError Backing) = .ok (.file id place) →
        id < w.volume.contents.size := fun e => ⟨.refl w, fun id place h => nomatch h⟩
  unfold openFile
  split
  · exact herror _
  rename_i settled _
  split
  · exact herror _
  · rename_i found
    refine ⟨.refl w, fun id place h => ?_⟩
    cases h
    exact hv.lt_of_find? found
  · split
    · rename_i volume hrun
      have hspared := (FileAction.openOrCreate_spares settled).of_run hrun
      exact ⟨⟨rfl, rfl, hspared⟩, fun id place h => nomatch h⟩
    · rename_i volume hrun
      have hspared := (FileAction.openOrCreate_spares settled).of_run hrun
      refine ⟨⟨rfl, rfl, hspared⟩, fun id place h => ?_⟩
      cases h
      exact FileAction.openOrCreate_lt hv hrun
  · exact herror _

/-- So is the file of a database that was reached. -/
theorem reach_spec (w : Workspace) (hv : w.volume.Backed) (path : String) :
    w.Reached (w.reach path).2 ∧ ∀ link id, (w.reach path).1 = .ok link →
      link.file? = some id → id < (w.reach path).2.volume.contents.size := by
  have herror : ∀ e : ReachError, w.Reached w ∧ ∀ link id,
      (.error e : Except ReachError Link) = .ok link → link.file? = some id →
        id < w.volume.contents.size := fun e => ⟨.refl w, fun link id h => nomatch h⟩
  unfold reach
  split
  · exact herror _
  split
  · exact herror _
  rename_i goal _
  dsimp only
  split
  · refine ⟨.refl w, fun link id h hfile => ?_⟩
    cases h
    cases hfile
  · refine ⟨.refl w, fun link id h hfile => ?_⟩
    cases h
    cases hfile
  · rename_i name _
    obtain ⟨hreached, hthere⟩ := openFile_spec w hv path goal.access name
    split
    · rename_i hopen
      rw [hopen] at hreached
      exact ⟨hreached, fun link id h => nomatch h⟩
    · rename_i hopen
      rw [hopen] at hreached hthere
      refine ⟨hreached, fun link id h hfile => ?_⟩
      cases h
      obtain ⟨place, hbacking⟩ := Link.file?_eq_some.mp hfile
      exact hthere id place (congrArg Except.ok hbacking)

/-! ## Tidying up -/

theorem removeBeside_spares (v : Volume) (path : String) : v.Rearranged (removeBeside v path) := by
  unfold removeBeside
  split
  · split
    · exact .refl v
    · exact FileAction.removeFile_spares path v
  · exact .refl v

theorem tidy_reached (w : Workspace) (l : Link) : w.Reached (w.tidy l) := by
  unfold tidy
  split
  · dsimp only
    split
    · exact .refl w
    · refine ⟨rfl, rfl, ?_⟩
      split
      · exact (removeBeside_spares _ _).trans (removeBeside_spares _ _)
      · exact removeBeside_spares _ _
  · exact .refl w

/-! ## Making a database -/

theorem fill_founded (w : Workspace) (l : Link)
    (hsmall : ∀ id place, l.backing = .file id place → w.hasDatabase id = false →
      id < w.volume.contents.size ∧ (w.volume.content id).size ≤ 1) :
    (w.fill l).journal = w.journal ∧ w.volume.Founded (w.fill l).volume := by
  have hstay : w.journal = w.journal ∧ w.volume.Founded w.volume :=
    ⟨rfl, (Volume.Rearranged.refl _).founded⟩
  unfold fill
  split
  · rename_i id place hbacking
    split
    · exact hstay
    · rename_i hnone
      obtain ⟨hid, hlittle⟩ := hsmall id place hbacking (Bool.eq_false_iff.mpr hnone)
      have hmade := Volume.founded_setContent hid hlittle
      refine ⟨rfl, ?_⟩
      dsimp only
      split
      · exact hmade.trans (FileAction.removeFile_spares _ _).founded
      · exact hmade
  · exact hstay

/-- Tables are added to a database only if it can be read. -/
theorem readable_of_addTables {s : Setting} {c c' : Connection}
    (h : addTables s c = (.ok (), c')) : s.unreadable = none := by
  unfold addTables at h
  cases hread : s.beginReading with
  | error e =>
    rw [hread] at h
    cases h
  | ok _ =>
    unfold Setting.beginReading at hread
    split at hread
    · split at hread
      · cases hread
      · assumption
    · cases hread

/-- A file that can be read has a database in it, or as good as nothing. -/
theorem little_of_readable {l : Link} {id : FileId} {place : String}
    (hbacking : l.backing = .file id place) (hread : (w.setting l).unreadable = none)
    (hnone : w.hasDatabase id = false) : (w.volume.content id).size ≤ 1 := by
  have hsetting : (w.setting l).unreadable = w.unreadable l.fixed id place := by
    unfold setting
    rw [hbacking]
  rw [hsetting] at hread
  unfold unreadable at hread
  rw [hnone] at hread
  by_contra hlarge
  have hfilled : decide (1 < (w.volume.content id).size) = true :=
    decide_eq_true (Nat.lt_of_not_le hlarge)
  simp only [hfilled] at hread
  split at hread
  · cases hread
  split at hread
  · cases hread
  · cases hread

/-- What comes between reaching a database and keeping it. -/
theorem prepare_founded {l : Link} (hthere : ∀ id, l.file? = some id → id < w.volume.contents.size)
    (hread : (w.setting l).unreadable = none) :
    ((w.tidy l).fill l).journal = w.journal ∧ w.volume.Founded ((w.tidy l).fill l).volume := by
  have htidy := tidy_reached w l
  have hfill := fill_founded (w.tidy l) l fun id place hbacking hnone => by
    rw [htidy.hasDatabase] at hnone
    rw [htidy.volume.content]
    have hid := hthere id (Link.file?_eq_some.mpr ⟨place, hbacking⟩)
    exact ⟨Nat.lt_of_lt_of_le hid htidy.volume.size, little_of_readable hbacking hread hnone⟩
  exact ⟨hfill.1.trans htidy.journal, htidy.volume.founded.trans hfill.2⟩

/-! ## Seats -/

theorem setSeat_reached (w : Workspace) (s : Seat) (store : Option OpenStore) :
    w.Reached (w.setSeat s store) := by
  cases s <;> exact ⟨rfl, rfl, .refl _⟩

theorem keep_files (w : Workspace) (s : Seat) (store : OpenStore) (d : Database) :
    (w.keep s store d).journal = w.journal ∧ (w.keep s store d).volume = w.volume := by
  unfold keep
  split <;> cases s <;> exact ⟨rfl, rfl⟩

/-! ## Opening -/

/-- The file that opening a store reaches, if it reaches one. -/
def fileReached (w : Workspace) (s : Seat) (path : String) : Option FileId :=
  match ((w.setSeat s none).reach path).1 with
  | .ok link => link.file?
  | .error _ => none

/-- Opening a store leaves the journal as it is, and makes of files what has to be made of them. The
file that it reaches is there. -/
theorem openQuietly_founded (w : Workspace) (hv : w.volume.Backed) (s : Seat) (c : DatabaseConfig) :
    (w.openQuietly s c).2.journal = w.journal ∧
      w.volume.Founded (w.openQuietly s c).2.volume ∧
      ∀ id ∈ w.fileReached s c.path, id < (w.openQuietly s c).2.volume.contents.size := by
  have hseat := setSeat_reached w s none
  obtain ⟨hreach, hthere⟩ := reach_spec (w.setSeat s none) (hseat.volume.backed hv) c.path
  have hreached := hseat.trans hreach
  unfold openQuietly fileReached
  rcases hrun : (w.setSeat s none).reach c.path with ⟨e | link, w1⟩ <;>
    rw [hrun] at hreached hthere <;> dsimp only at hreached hthere ⊢
  · exact ⟨hreached.journal, hreached.volume.founded, fun id hid => nomatch hid⟩
  have hlt : ∀ id, link.file? = some id → id < w1.volume.contents.size := fun id =>
    hthere link id rfl
  split
  · exact ⟨hreached.journal, hreached.volume.founded, hlt⟩
  split
  · have htidy := tidy_reached w1 link
    have hall := hreached.trans htidy
    exact ⟨hall.journal, hall.volume.founded,
      fun id hid => Nat.lt_of_lt_of_le (hlt id hid) htidy.volume.size⟩
  rename_i connection hadd
  -- The tables were read, so the file holds a database or as good as nothing.
  obtain ⟨hjournal, hvolume⟩ := prepare_founded hlt (readable_of_addTables hadd)
  obtain ⟨hjournal', hvolume'⟩ := keep_files ((w1.tidy link).fill link) s
    ⟨c.path, c.dialect, link, connection.known, connection.changed⟩
    { (w1.tidy link).database link.backing with tables := connection.tables }
  rw [← hvolume'] at hvolume
  have hsame := hjournal'.trans (hjournal.trans hreached.journal)
  have hdone := hreached.volume.founded.trans hvolume
  split
  · have hgone := setSeat_reached (((w1.tidy link).fill link).keep s
      ⟨c.path, c.dialect, link, connection.known, connection.changed⟩
      { (w1.tidy link).database link.backing with tables := connection.tables }) s none
    exact ⟨hgone.journal.trans hsame, hdone.trans hgone.volume.founded, fun id hid =>
      Nat.lt_of_lt_of_le (hlt id hid) (Nat.le_trans hvolume.size hgone.volume.size)⟩
  · exact ⟨hsame, hdone, fun id hid => Nat.lt_of_lt_of_le (hlt id hid) hvolume.size⟩

end Workspace

end Pinboard
