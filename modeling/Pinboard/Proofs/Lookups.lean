import Pinboard.Proofs.Freshness
import Pinboard.Proofs.Handles
import Pinboard.Proofs.Layout
import Pinboard.Proofs.RankOrder

/-!
# Lists and single entries

The dashboards and the tags of an owner can be asked for all together or one by one. Both tell the
same: what is found by number or key is the one entry of the list that has it. The rows are sorted
by cells and found by cells; what is handed out is sorted and found in the same way, since
positions, numbers and keys lose nothing when they are read.
-/

namespace Pinboard.Store

/-! ## Lists with a key -/

section Lists

variable {α β κ ν : Type} {rows listed : List α} {key : α → κ} {k : κ} {r : α}

/-- Where each key comes once, a row is found by its key. -/
theorem find?_key_iff [BEq κ] [LawfulBEq κ] (hkeys : (rows.map key).Nodup) :
    rows.find? (key · == k) = some r ↔ r ∈ rows ∧ key r = k := by
  constructor
  · intro h
    exact ⟨List.mem_of_find?_eq_some h, by simpa using List.find?_some h⟩
  · rintro ⟨hr, rfl⟩
    have hsome : (rows.find? (key · == key r)).isSome := by
      rw [List.find?_isSome]
      exact ⟨r, hr, beq_self_eq_true _⟩
    obtain ⟨r', hfind⟩ := Option.isSome_iff_exists.mp hsome
    have hkey : key r' = key r := by simpa using List.find?_some hfind
    rw [hfind, List.inj_on_of_nodup_map hkeys (List.mem_of_find?_eq_some hfind) hr hkey]

/-- What is read from the row that is found is the entry of the list that has the name. -/
theorem map_find?_iff [BEq κ] [LawfulBEq κ] (named : β → ν) (hperm : listed.Perm rows)
    (hkeys : (rows.map key).Nodup) {f : α → β} {n : ν}
    (hnamed : ∀ r ∈ rows, named (f r) = n ↔ key r = k) {d : β} :
    (rows.find? (key · == k)).map f = some d ↔ d ∈ listed.map f ∧ named d = n := by
  rw [Option.map_eq_some_iff, List.mem_map]
  constructor
  · rintro ⟨r, hfind, rfl⟩
    obtain ⟨hmem, hkey⟩ := (find?_key_iff hkeys).mp hfind
    exact ⟨⟨r, hperm.mem_iff.mpr hmem, rfl⟩, (hnamed r hmem).mpr hkey⟩
  · rintro ⟨⟨r, hr, rfl⟩, hname⟩
    have hmem := hperm.mem_iff.mp hr
    exact ⟨r, (find?_key_iff hkeys).mpr ⟨hmem, (hnamed r hmem).mp hname⟩, rfl⟩

/-- In strict order, a list with one more entry is the list with the entry put in somewhere. -/
theorem exists_place_of_perm_cons {lt : β → β → Prop} (hasymm : ∀ a b, lt a b → ¬ lt b a)
    {L M : List β} {b : β} (hL : L.Pairwise lt) (hM : M.Pairwise lt) (h : M.Perm (b :: L)) :
    ∃ before after, L = before ++ after ∧ M = before ++ b :: after := by
  obtain ⟨before, after, rfl⟩ := List.append_of_mem (h.mem_iff.mpr List.mem_cons_self)
  have hrest : (before ++ after).Perm L := (List.perm_middle.symm.trans h).cons_inv
  have hsorted : (before ++ after).Pairwise lt :=
    hM.sublist ((List.sublist_cons_self b after).append_left before)
  refine ⟨before, after, ?_, rfl⟩
  exact (hrest.eq_of_pairwise (fun a b _ _ hab hba => absurd hba (hasymm a b hab)) hsorted hL).symm

end Lists

/-! ## Dashboards -/

/-- The list of an owner's dashboards is complete and in order, and what is found by a number is the
one dashboard of the list that has it. -/
structure DashboardsTold (s : Setting) (c : Connection) (owner : UserId) (ds : List Dashboard) :
    Prop where
  /-- The list is what the store tells. -/
  listed : (listDashboards s owner c).1 = .ok ds
  /-- They are in the order of their positions, and at one position in that of their numbers. -/
  sorted : ds.Pairwise fun a b => a.order < b.order ∨ a.order = b.order ∧ a.id < b.id
  /-- Every dashboard of the owner is in it, once. -/
  complete : ds.Perm ((c.tables.boardsOf owner).map (·.dashboard owner))
  /-- A number leads to the dashboard of the list that has it, if there is one. -/
  found : ∀ id, ∃ d?, (findDashboard s owner id c).1 = .ok d? ∧
    ∀ d, d? = some d ↔ d ∈ ds ∧ d.id = id

section Dashboards

variable {s : Setting} {c : Connection} {owner : UserId}

/-- What is read of dashboards stands in the order of their ranks. -/
theorem DashboardRow.Legible.dashboard_lt {a b : DashboardRow} (ha : a.Legible) (hb : b.Legible)
    (h : a.rank < b.rank) :
    (a.dashboard owner).order < (b.dashboard owner).order ∨
      (a.dashboard owner).order = (b.dashboard owner).order ∧
        (a.dashboard owner).id < (b.dashboard owner).id := by
  obtain ⟨ha0, ha1⟩ := ha.place
  obtain ⟨hb0, hb1⟩ := hb.place
  rcases Prod.Lex.toLex_lt_toLex.mp h with hplace | ⟨hplace, hid⟩
  · left
    show Int32.ofInt a.order.place < Int32.ofInt b.order.place
    rw [Int32.lt_iff_toInt_lt, Int32.toInt_ofInt_of_le (by omega) (by omega),
      Int32.toInt_ofInt_of_le (by omega) (by omega)]
    exact hplace
  · exact Or.inr ⟨congrArg Int32.ofInt hplace, cut32_lt ha.id.1 hid hb.id.2⟩

theorem Tables.Kept.shown_sorted {t : Tables} (hk : t.Kept)
    (hroom : t.lastDashboard < 4294967296) (owner : UserId) :
    ((t.shown owner).map (·.dashboard owner)).Pairwise
      fun a b => a.order < b.order ∨ a.order = b.order ∧ a.id < b.id := by
  have hlegible : ∀ r ∈ t.shown owner, r.Legible :=
    fun r hr => hk.board hroom (Tables.mem_shown.mp hr).1
  have hids : ((t.shown owner).map (·.id)).Nodup :=
    ((Tables.shown_perm t owner).map _).nodup_iff.mpr
      (Tables.boardsOf_ids (hk.ordered.numbered hk.sound.boards_eq).ids)
  have hsorted : (t.shown owner).Pairwise (·.rank ≤ ·.rank) := by
    rw [Tables.shown, mergeSort_shownBefore fun r hr =>
      (hlegible r (List.mem_mergeSort.mpr hr)).order]
    exact pairwise_mergeSort_le DashboardRow.rank _
  rw [List.pairwise_map]
  refine (hsorted.and (List.pairwise_map.mp hids)).imp_of_mem fun {a b} ha hb hab => ?_
  obtain ⟨hle, hne⟩ := hab
  refine (hlegible a ha).dashboard_lt (hlegible b hb) (lt_of_le_of_ne hle fun heq => hne ?_)
  exact (Prod.mk.inj (toLex_inj.mp heq)).2

/-- The dashboards of an owner are told as they are shown. -/
theorem dashboardsTold (hread : s.beginReading = .ok ()) (hk : c.tables.Kept)
    (hroom : c.tables.lastDashboard < 4294967296) (owner : UserId) :
    DashboardsTold s c owner ((c.tables.shown owner).map (·.dashboard owner)) := by
  have hids : ((c.tables.boardsOf owner).map (·.id)).Nodup :=
    Tables.boardsOf_ids (hk.ordered.numbered hk.sound.boards_eq).ids
  refine ⟨listDashboards_readable hread hk hroom owner, hk.shown_sorted hroom owner,
    (Tables.shown_perm _ _).map _, fun id =>
    ⟨_, findDashboard_readable hread hk hroom owner id, fun d => ?_⟩⟩
  refine map_find?_iff Dashboard.id (Tables.shown_perm c.tables owner) hids fun r hr => ?_
  obtain ⟨h0, hlt⟩ := (hk.board hroom (List.mem_filter.mp hr).1).id
  show cut32 r.id = id ↔ r.id = wide id
  rw [← wide_cut32 h0 hlt, cut32_wide]
  exact ⟨congrArg wide, wide_injective⟩

end Dashboards

/-! ## Tags -/

/-- The list of an owner's tags is complete and in order, and what is found by a key is the one tag
of the list that has it. -/
structure TagsTold (s : Setting) (c : Connection) (owner : UserId) (ts : List Tag) : Prop where
  /-- The list is what the store tells. -/
  listed : (listTags s owner c).1 = .ok ts
  /-- They are in the order of the bytes of their keys. -/
  sorted : ts.Pairwise fun a b => Cell.compareBytes (Cell.bytesOf a.key) (Cell.bytesOf b.key) = .lt
  /-- Every tag of the owner is in it, once. -/
  complete : ts.Perm ((c.tables.definitionsOf owner).map (·.tag owner))
  /-- A key leads to the tag of the list that has it, if there is one. -/
  found : ∀ key, ∃ t?, (findTag s owner key c).1 = .ok t? ∧ ∀ t, t? = some t ↔ t ∈ ts ∧ t.key = key

section Tags

variable {s : Setting} {c : Connection} {owner : UserId}

theorem keyBefore_eq {a b : TagRow} (ha : a.Legible) (hb : b.Legible) :
    a.keyBefore b = decide (a.key.wording ≤ b.key.wording) := by
  unfold TagRow.keyBefore
  rw [Bool.eq_iff_iff, decide_eq_true_iff, ha.key, hb.key]
  exact Cell.isLE_compare_text _ _

/-- The tags of an owner, by key. -/
def Tables.tagList (t : Tables) (owner : UserId) : List Tag :=
  ((t.definitionsOf owner).mergeSort TagRow.keyBefore).map (·.tag owner)

theorem Tables.tagList_perm (t : Tables) (owner : UserId) :
    (t.tagList owner).Perm ((t.definitionsOf owner).map (·.tag owner)) :=
  (List.mergeSort_perm _ _).map _

theorem Tables.Kept.tagList_sorted {t : Tables} (hk : t.Kept)
    (hl : ∀ r ∈ t.definitions, r.Legible) (owner : UserId) :
    (t.tagList owner).Pairwise fun a b =>
      Cell.compareBytes (Cell.bytesOf a.key) (Cell.bytesOf b.key) = .lt := by
  have hlegible : ∀ r ∈ t.definitionsOf owner, r.Legible :=
    fun r hr => hl r (List.mem_filter.mp hr).1
  have hperm := List.mergeSort_perm (t.definitionsOf owner) (·.key.wording ≤ ·.key.wording)
  have hkeys := (hperm.map _).nodup_iff.mpr (Tables.nodup_keysOf hk.defined.slots owner)
  rw [Tables.tagList, List.pairwise_map,
    mergeSort_congr fun a ha b hb => keyBefore_eq (hlegible a ha) (hlegible b hb)]
  have hsorted := pairwise_mergeSort_le (fun r : TagRow => r.key.wording) (t.definitionsOf owner)
  refine (hsorted.and (List.pairwise_map.mp hkeys)).imp_of_mem fun {a b} ha hb hab => ?_
  obtain ⟨hle, hne⟩ := hab
  refine Cell.compareBytes_bytesOf (lt_of_le_of_ne hle fun heq => hne ?_)
  rw [(hlegible a (hperm.mem_iff.mp ha)).key, (hlegible b (hperm.mem_iff.mp hb)).key,
    show a.key.wording = b.key.wording from heq]

/-- The tags of an owner are told by key. -/
theorem tagsTold (hread : s.beginReading = .ok ()) (hk : c.tables.Kept)
    (hl : ∀ r ∈ c.tables.definitions, r.Legible) (owner : UserId) :
    TagsTold s c owner (c.tables.tagList owner) := by
  have hkeys := Tables.nodup_keysOf hk.defined.slots owner
  refine ⟨listTags_readable hread hk.sound hl owner, hk.tagList_sorted hl owner,
    Tables.tagList_perm _ _, fun key =>
    ⟨_, findTag_readable hread hk.sound hl owner key, fun t => ?_⟩⟩
  refine map_find?_iff Tag.key (List.mergeSort_perm _ TagRow.keyBefore) hkeys fun r hr => ?_
  show r.key.wording = key ↔ r.key = .text key
  rw [(hl r (List.mem_filter.mp hr).1).key]
  exact ⟨congrArg Cell.text, Cell.text.inj⟩

theorem TagRow.tag_ofTag (tag : Tag) (rows : List TagRow) :
    ((TagRow.ofTag tag).numbered rows).tag tag.owner = tag := by
  obtain ⟨owner, key, color, kind⟩ := tag
  cases kind <;> rfl

theorem Effect.createTag_tagList {t t' : Tables} {tag made : Tag}
    (h : Effect t (.createTag tag) (.tag (some made)) t') :
    made = tag ∧ (t'.tagList tag.owner).Perm (tag :: t.tagList tag.owner) := by
  cases h with
  | question hq => cases hq
  | @createTag _ rows _ hblank hrows =>
    have hdefined : t.definitions = rows := congrArg (·.getD []) hrows
    refine ⟨rfl, (Tables.tagList_perm _ _).trans ?_⟩
    have hadded : Tables.definitionsOf
        { t with tags := some (rows ++ [(TagRow.ofTag tag).numbered rows]) } tag.owner =
          t.definitionsOf tag.owner ++ [(TagRow.ofTag tag).numbered rows] := by
      rw [Tables.definitionsOf, Tables.definitionsOf, hdefined]
      refine (List.filter_append ..).trans (congrArg _ (List.filter_eq_self.mpr fun r hr => ?_))
      rw [List.mem_singleton.mp hr]
      exact beq_self_eq_true _
    rw [hadded, List.map_append, List.map_singleton, TagRow.tag_ofTag]
    exact (List.perm_append_singleton _ _).trans ((Tables.tagList_perm _ _).symm.cons tag)

/-- A new tag is put into its place among the tags of its owner. -/
theorem createTag_inserts {s s' : Setting} {tag made : Tag} (hread : s.beginReading = .ok ())
    (hk : c.tables.Kept) (hl : ∀ r ∈ c.tables.definitions, r.Legible)
    (h : (createTag s' tag c).1 = .ok made) :
    made = tag ∧ ∃ before after, c.tables.tagList tag.owner = before ++ after ∧
      TagsTold s (createTag s' tag c).2 tag.owner (before ++ tag :: after) := by
  have heffect := createTag_effect ⟨h, rfl⟩
  obtain ⟨rfl, hnew⟩ := heffect.createTag_tagList
  have htold := tagsTold hread (heffect.kept hk) (heffect.tags_legible hl) made.owner
  obtain ⟨before, after, hold, hnow⟩ :=
    exists_place_of_perm_cons (fun _ _ hab => Cell.compareBytes_asymm hab)
      (hk.tagList_sorted hl made.owner) htold.sorted hnew
  exact ⟨rfl, before, after, hold, hnow ▸ htold⟩

end Tags

theorem Session.run_tags_legible {w : Session} (hk : w.tables.Kept)
    (hl : ∀ r ∈ w.tables.definitions, r.Legible) (steps : List Step) :
    ∀ r ∈ (w.run steps).2.tables.definitions, r.Legible := by
  have hrun : (w.run steps).2.tables.Kept ∧ ∀ r ∈ (w.run steps).2.tables.definitions, r.Legible :=
    run_keeps (P := fun t => t.Kept ∧ ∀ r ∈ t.definitions, r.Legible)
      (fun t ht => by rw [ht.1.sound.addMissing]; exact ht)
      (fun t r a t' heff ht => ⟨heff.kept ht.1, heff.tags_legible ht.2⟩) ⟨hk, hl⟩ steps
  exact hrun.2

/-- After whatever has been asked of a database and whatever has come of it, as long as numbers of
32 bits last: an owner's dashboards and tags can be listed and found wherever the database can be
read, the lists are in strict order, and what is found is what is listed. A new tag is listed as it
was handed out, at its place among the others. -/
theorem lookups_agree_with_lists {clients : Nat → Option Client} {steps : List Step} {s : Setting}
    (hread : s.beginReading = .ok ()) {c : Connection}
    (hc : c.tables = ((Session.mk .fresh clients).run steps).2.tables)
    (hroom : c.tables.lastDashboard < 4294967296) (owner : UserId) :
    (∃ ds, DashboardsTold s c owner ds) ∧
      ∃ ts, TagsTold s c owner ts ∧ ∀ s' tag made, tag.owner = owner →
        (createTag s' tag c).1 = .ok made → made = tag ∧ ∃ before after, ts = before ++ after ∧
          TagsTold s (createTag s' tag c).2 owner (before ++ tag :: after) := by
  have hk : c.tables.Kept := hc ▸ Session.run_kept Tables.kept_fresh steps
  have hl : ∀ r ∈ c.tables.definitions, r.Legible :=
    hc ▸ Session.run_tags_legible Tables.kept_fresh Tables.legible_fresh.tags steps
  refine ⟨⟨_, dashboardsTold hread hk hroom owner⟩, _, tagsTold hread hk hl owner, ?_⟩
  rintro s' tag made rfl hmade
  exact createTag_inserts hread hk hl hmade

/-- The second dashboard is listed as it is found, and a tag is added to two others. -/
theorem lookups_agree_with_lists_of_two :
    let steps : List Step := [⟨0, .clear, .join .sqlite⟩, ⟨0, .clear, .ask (.createUser "u")⟩,
      ⟨0, .clear, .ask (.createDashboard (.draft 1 "x"))⟩,
      ⟨0, .clear, .ask (.createDashboard (.draft 1 "y"))⟩,
      ⟨0, .clear, .ask (.createTag ⟨1, "b", "", .noValue⟩)⟩,
      ⟨0, .clear, .ask (.createTag ⟨1, "ü", "", .noValue⟩)⟩]
    let c : Connection := ⟨((Session.start .fresh).run steps).2.tables, {}, 0⟩
    let tag : Tag := ⟨1, "é", "red", .singleValue⟩
    Setting.clear.beginReading = .ok () ∧ c.tables.lastDashboard < 4294967296 ∧
      (createTag .clear tag c).1 = .ok tag ∧
      ∃ ds before after, DashboardsTold .clear c 1 ds ∧ ⟨2, 1, "y", 1⟩ ∈ ds ∧
        TagsTold .clear c 1 (before ++ after) ∧
        TagsTold .clear (createTag .clear tag c).2 1 (before ++ tag :: after) := by
  intro steps c tag
  have hroom : c.tables.lastDashboard < 4294967296 := by decide +kernel
  have hmade : (createTag .clear tag c).1 = .ok tag := by decide +kernel
  have hfind : (findDashboard .clear 1 2 c).1 = .ok (some ⟨2, 1, "y", 1⟩) := by decide +kernel
  obtain ⟨⟨ds, hds⟩, ts, hts, hnew⟩ :=
    lookups_agree_with_lists (s := .clear) (c := c) rfl rfl hroom 1
  obtain ⟨-, before, after, rfl, hnow⟩ := hnew .clear tag tag rfl hmade
  obtain ⟨d?, hd, hfound⟩ := hds.found 2
  have hsome : d? = some ⟨2, 1, "y", 1⟩ := Except.ok.inj (hd.symm.trans hfind)
  exact ⟨rfl, hroom, hmade, ds, before, after, hds, ((hfound _).mp hsome).1, hts, hnow⟩

end Pinboard.Store
