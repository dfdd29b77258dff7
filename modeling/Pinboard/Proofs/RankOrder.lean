import Pinboard.Proofs.ByteOrder
import Pinboard.Proofs.Legibility

/-!
# The order of a ranking

A ranking puts each tag of its owner in one place. What is in the ledger for other owners, or for
keys without a tag, has no part in it; a tag that was never used stays in it, behind all others.
-/

namespace Pinboard.Store

namespace Tables

/-- Tags and uses are as their tables have to keep them, and their cells hold what the library
writes. -/
structure Rankings (t : Tables) : Prop where
  /-- There is a table of tags. -/
  tags : .tags ∈ t.present
  /-- There is a ledger of uses. -/
  recents : .recents ∈ t.present
  /-- An owner has no two tags with one key. -/
  keys : (t.definitions.map (·.slot)).Nodup
  /-- The ledger holds no two uses of one key by one owner. -/
  slots : (t.uses.map (·.slot)).Nodup
  /-- Keys, colours and kinds are texts. -/
  legible : ∀ r ∈ t.definitions, r.Legible
  /-- Moments are whole numbers. -/
  moments : ∀ r ∈ t.uses, ∃ n, r.lastUsed = .integer n

/-- The ledger holds a use of a tag by its owner. -/
def Used (t : Tables) (tag : Tag) : Prop :=
  ∃ r ∈ t.uses, r.owner = wide tag.owner ∧ r.key = .text tag.key

/-- The ledger holds a use of a tag by its owner, and none at another moment. -/
def UsedAt (t : Tables) (tag : Tag) (n : Int) : Prop :=
  t.Used tag ∧
    ∀ r ∈ t.uses, r.owner = wide tag.owner → r.key = .text tag.key → r.lastUsed = .integer n

instance (t : Tables) (tag : Tag) : Decidable (t.Used tag) :=
  inferInstanceAs (Decidable (∃ r ∈ t.uses, r.owner = wide tag.owner ∧ r.key = .text tag.key))

instance (t : Tables) (tag : Tag) (n : Int) : Decidable (t.UsedAt tag n) :=
  inferInstanceAs (Decidable (_ ∧ ∀ r ∈ t.uses, r.owner = wide tag.owner →
    r.key = .text tag.key → r.lastUsed = .integer n))

/-- One tag has its place in a ranking before another. -/
inductive RankedBefore (t : Tables) (a b : Tag) : Prop
  /-- Only the first was used. -/
  | used (ha : t.Used a) (hb : ¬ t.Used b)
  /-- The first was used later. -/
  | later {m n : Int} (ha : t.UsedAt a m) (hb : t.UsedAt b n) (h : n < m)
  /-- They were used at one moment, and the first has the smaller key. -/
  | together {n : Int} (ha : t.UsedAt a n) (hb : t.UsedAt b n)
    (h : Cell.compareBytes (Cell.bytesOf a.key) (Cell.bytesOf b.key) = .lt)
  /-- They were not used, and the first has the smaller key. -/
  | unused (ha : ¬ t.Used a) (hb : ¬ t.Used b)
    (h : Cell.compareBytes (Cell.bytesOf a.key) (Cell.bytesOf b.key) = .lt)

variable {t : Tables} {a b : Tag}

theorem UsedAt.unique {m n : Int} (hm : t.UsedAt a m) (hn : t.UsedAt a n) : m = n := by
  obtain ⟨⟨r, hr, howner, hkey⟩, hm⟩ := hm
  have hcells := (hm r hr howner hkey).symm.trans (hn.2 r hr howner hkey)
  injection hcells

/-- Of two tags, only one has its place before the other. -/
theorem RankedBefore.asymm (hab : t.RankedBefore a b) : ¬ t.RankedBefore b a := by
  intro hba
  cases hab with
  | used ha hb =>
    cases hba with
    | used hb' _ => exact hb hb'
    | later hb' _ _ => exact hb hb'.1
    | together hb' _ _ => exact hb hb'.1
    | unused _ ha' _ => exact ha' ha
  | later ha hb hlt =>
    cases hba with
    | used _ ha' => exact ha' ha.1
    | later hb' ha' hlt' =>
      have hm := ha.unique ha'
      have hn := hb.unique hb'
      omega
    | together hb' ha' _ =>
      have hm := ha.unique ha'
      have hn := hb.unique hb'
      omega
    | unused _ ha' _ => exact ha' ha.1
  | together ha hb hlt =>
    cases hba with
    | used _ ha' => exact ha' ha.1
    | later hb' ha' _ =>
      have hm := ha.unique ha'
      have hn := hb.unique hb'
      omega
    | together _ _ hlt' => exact Cell.compareBytes_asymm hlt hlt'
    | unused _ ha' _ => exact ha' ha.1
  | unused ha hb hlt =>
    cases hba with
    | used hb' _ => exact hb hb'
    | later hb' _ _ => exact hb hb'.1
    | together hb' _ _ => exact hb hb'.1
    | unused _ _ hlt' => exact Cell.compareBytes_asymm hlt hlt'

end Tables

/-! ## Uses and standings -/

section Standing

variable {t : Tables} {owner : UserId} {r : TagRow}

theorem used_iff (hr : r ∈ t.definitionsOf owner) (hlegible : r.Legible) :
    t.Used (r.tag owner) ↔ ∃ use ∈ t.uses, use.isFor r.owner r.key = true := by
  have howner : r.owner = wide owner := by simpa using (List.mem_filter.mp hr).2
  have hkey : r.key = .text (r.tag owner).key := hlegible.key
  simp only [RecentRow.isFor_iff, howner, hkey]
  rfl

theorem not_used (hr : r ∈ t.definitionsOf owner) (hlegible : r.Legible)
    (huse : lastUse? t.uses r = none) : ¬ t.Used (r.tag owner) := by
  rw [used_iff hr hlegible]
  rintro ⟨use, hmem, hfor⟩
  have hnone := List.find?_eq_none.mp (Option.map_eq_none_iff.mp huse) use hmem
  exact hnone hfor

theorem usedAt (h : t.Rankings) (hr : r ∈ t.definitionsOf owner) (hlegible : r.Legible) {n : Int}
    (huse : lastUse? t.uses r = some (.integer n)) : t.UsedAt (r.tag owner) n := by
  obtain ⟨use, hfind, hlast⟩ := Option.map_eq_some_iff.mp huse
  have hmem := List.mem_of_find?_eq_some hfind
  have hfor := isFor_of_find? hfind
  refine ⟨(used_iff hr hlegible).mpr ⟨use, hmem, hfor⟩, fun use' hmem' howner hkey => ?_⟩
  have hown : r.owner = wide owner := by simpa using (List.mem_filter.mp hr).2
  have hslot : use'.slot = use.slot := by
    obtain ⟨ho, hk⟩ := RecentRow.isFor_iff.mp hfor
    have hword : r.key = .text (r.tag owner).key := hlegible.key
    rw [RecentRow.slot, RecentRow.slot, ho, hk, howner, hkey, hown, hword]
    rfl
  rw [List.inj_on_of_nodup_map h.slots hmem' hmem hslot, hlast]

/-- A smaller standing is a place before. -/
theorem rankedBefore_of_standing (h : t.Rankings) {a b : TagRow} (ha : a ∈ t.definitionsOf owner)
    (hb : b ∈ t.definitionsOf owner) (hlt : a.standing t.uses < b.standing t.uses) :
    t.RankedBefore (a.tag owner) (b.tag owner) := by
  have hla : a.Legible := h.legible a (List.mem_filter.mp ha).1
  have hlb : b.Legible := h.legible b (List.mem_filter.mp hb).1
  have hmoment : ∀ r : TagRow, ∀ cell ∈ lastUse? t.uses r, ∃ n, cell = .integer n := by
    intro r cell hcell
    obtain ⟨use, hfind, rfl⟩ := Option.map_eq_some_iff.mp hcell
    exact h.moments use (List.mem_of_find?_eq_some hfind)
  rcases standing_lt.mp hlt with hlater | ⟨hsame, hkey⟩
  -- The moments decide; no use at all stands behind every moment.
  · cases hua : lastUse? t.uses a with
    | none =>
      rw [hua] at hlater
      exact absurd hlater not_lt_bot
    | some u =>
      obtain ⟨m, rfl⟩ := hmoment a u hua
      cases hub : lastUse? t.uses b with
      | none => exact .used (usedAt h ha hla hua).1 (not_used hb hlb hub)
      | some v =>
        obtain ⟨n, rfl⟩ := hmoment b v hub
        rw [hua, hub] at hlater
        exact .later (usedAt h ha hla hua) (usedAt h hb hlb hub) (WithBot.coe_lt_coe.mp hlater)
  -- The moments agree, or there is none for both, and the keys decide.
  · have hbytes := Cell.compareBytes_bytesOf hkey
    cases hua : lastUse? t.uses a with
    | none =>
      cases hub : lastUse? t.uses b with
      | none => exact .unused (not_used ha hla hua) (not_used hb hlb hub) hbytes
      | some v =>
        obtain ⟨n, rfl⟩ := hmoment b v hub
        rw [hua, hub] at hsame
        exact absurd hsame WithBot.bot_ne_coe
    | some u =>
      obtain ⟨m, rfl⟩ := hmoment a u hua
      cases hub : lastUse? t.uses b with
      | none =>
        rw [hua, hub] at hsame
        exact absurd hsame WithBot.coe_ne_bot
      | some v =>
        obtain ⟨n, rfl⟩ := hmoment b v hub
        rw [hua, hub] at hsame
        obtain rfl : m = n := WithBot.coe_inj.mp hsame
        exact .together (usedAt h ha hla hua) (usedAt h hb hlb hub) hbytes

end Standing

/-! ## Rankings -/

section Ranking

variable {c : Connection} {owner : UserId}

/-- The tags of an owner are read in whatever order they are put. -/
theorem Tables.Rankings.mapM_read {t : Tables} (h : t.Rankings) {rows : List TagRow}
    (hperm : rows.Perm (t.definitionsOf owner)) :
    rows.mapM TagRow.read = .ok (rows.map (·.tag owner)) := by
  refine Store.mapM_read (fun r hr => ?_) fun r hr => ?_
  · exact h.legible r (List.mem_filter.mp (hperm.mem_iff.mp hr)).1
  · simpa using (List.mem_filter.mp (hperm.mem_iff.mp hr)).2

/-- No two tags of an owner have one key. -/
theorem Tables.nodup_keysOf {t : Tables} (h : (t.definitions.map (·.slot)).Nodup) (owner : UserId) :
    ((t.definitionsOf owner).map (·.key)).Nodup := by
  have hslots : ((t.definitionsOf owner).map (·.slot)).Nodup :=
    h.sublist (List.filter_sublist.map _)
  refine (List.Nodup.of_map _ hslots).map_on fun a ha b hb hab => ?_
  refine List.inj_on_of_nodup_map hslots ha hb ?_
  have howner : a.owner = wide owner := by simpa using (List.mem_filter.mp ha).2
  have howner' : b.owner = wide owner := by simpa using (List.mem_filter.mp hb).2
  rw [TagRow.slot, TagRow.slot, howner, howner', hab]

/-- Sorted by standing, the tags of an owner have their places in the ranking. -/
theorem Tables.Rankings.pairwise {t : Tables} (h : t.Rankings) (owner : UserId) :
    (((t.definitionsOf owner).mergeSort (ranksBefore t.uses)).map (·.tag owner)).Pairwise
      t.RankedBefore := by
  have hlegible : ∀ r ∈ t.definitionsOf owner, r.Legible :=
    fun r hr => h.legible r (List.mem_filter.mp hr).1
  have hmoments : ∀ r ∈ t.definitionsOf owner, ∀ use ∈ lastUse? t.uses r,
      ∃ n, use = .integer n := by
    intro r _ cell hcell
    obtain ⟨use, hfind, rfl⟩ := Option.map_eq_some_iff.mp hcell
    exact h.moments use (List.mem_of_find?_eq_some hfind)
  rw [mergeSort_ranksBefore hlegible hmoments, List.pairwise_map]
  have hsorted := pairwise_mergeSort_le (TagRow.standing t.uses) (t.definitionsOf owner)
  have hkeys := Tables.nodup_keysOf h.keys owner
  have hdistinct := (List.mergeSort_perm (t.definitionsOf owner)
    (·.standing t.uses ≤ ·.standing t.uses)).nodup_iff.mpr (List.Nodup.of_map _ hkeys)
  -- Two tags of one owner have different keys, and with them different standings.
  refine (hsorted.and hdistinct).imp_of_mem fun {a b} ha hb ⟨hle, hne⟩ => ?_
  have ha := List.mem_mergeSort.mp ha
  have hb := List.mem_mergeSort.mp hb
  refine rankedBefore_of_standing h ha hb (lt_of_le_of_ne hle fun heq => hne ?_)
  exact eq_of_standing hlegible hkeys ha hb heq

/-- A ranking is the list of its owner's tags, each once, in another order: those used before those
not used, the later use before the earlier one, and otherwise the smaller key before the larger. -/
theorem ranking_ordered (h : c.tables.Rankings) (owner : UserId) :
    ∃ listed ranked, (listTags .clear owner c).1 = .ok listed ∧
      (rankTags .clear owner c).1 = .ok ranked ∧
      listed.Perm ((c.tables.definitionsOf owner).map (·.tag owner)) ∧ ranked.Perm listed ∧
      ranked.Nodup ∧ ranked.Pairwise c.tables.RankedBefore := by
  have hlisted := List.mergeSort_perm (c.tables.definitionsOf owner) TagRow.keyBefore
  have hranked := List.mergeSort_perm (c.tables.definitionsOf owner) (ranksBefore c.tables.uses)
  refine ⟨_, _, ?_, ?_, hlisted.map _, (hranked.trans hlisted.symm).map _, ?_, h.pairwise owner⟩
  · unfold listTags
    rw [inspect_table rfl h.tags, Tables.tagsOf_eq h.tags, except_ok_bind, h.mapM_read hlisted]
    rfl
  · rw [rankTags_answer h.tags h.recents, h.mapM_read hranked]
    rfl
  · exact (h.pairwise owner).imp fun hab heq => (heq ▸ hab).asymm (heq ▸ hab)

/-- Two tags that were used at one moment come between one that was used later and two that were
not used. Uses by another user, and of a key without a tag, do not count. -/
theorem ranking_ordered_with_ties :
    let t : Tables := { Tables.fresh with
      users := some [⟨1, .text "u"⟩, ⟨2, .text "v"⟩]
      tags := some [⟨1, 1, .text "é", .text "", .text "novalue"⟩,
        ⟨2, 1, .text "a", .text "", .text "novalue"⟩, ⟨3, 1, .text "c", .text "", .text "novalue"⟩,
        ⟨4, 2, .text "c", .text "", .text "novalue"⟩, ⟨5, 1, .text "Z", .text "", .text "novalue"⟩,
        ⟨6, 1, .text "b", .text "", .text "novalue"⟩]
      recents := some [⟨1, 1, .text "c", .integer 5⟩, ⟨2, 2, .text "a", .integer 100⟩,
        ⟨3, 1, .text "é", .integer 5⟩, ⟨4, 1, .text "gone", .integer 50⟩,
        ⟨5, 1, .text "b", .integer 9⟩] }
    t.Rankings ∧ (rankTags .clear 1 ⟨t, {}, 0⟩).1 = .ok [⟨1, "b", "", .noValue⟩,
      ⟨1, "c", "", .noValue⟩, ⟨1, "é", "", .noValue⟩, ⟨1, "Z", "", .noValue⟩,
      ⟨1, "a", "", .noValue⟩] := by
  intro t
  have ht : t.Rankings := by
    refine ⟨by decide, by decide, by decide, by decide, fun r hr => ?_, fun r hr => ?_⟩
    · have hcells : ∀ r ∈ t.definitions, r.key = .text r.key.wording ∧
          r.color = .text r.color.wording ∧ r.kind = .text r.kind.wording := by decide
      obtain ⟨hkey, hcolor, hkind⟩ := hcells r hr
      exact ⟨hkey, hcolor, hkind⟩
    · have hmoments : ∀ r ∈ t.uses, r.lastUsed = .integer r.lastUsed.place := by decide
      exact ⟨_, hmoments r hr⟩
  obtain ⟨listed, ranked, -, hranked, hlisted, hperm, -, hplaces⟩ :=
    ranking_ordered (c := ⟨t, {}, 0⟩) ht 1
  refine ⟨ht, hranked.trans (congrArg _ ?_)⟩
  -- The tags of the owner can be put in one way only such that each has its place.
  refine List.Perm.eq_of_pairwise (fun a b _ _ hab hba => absurd hba hab.asymm) hplaces ?_
    ((hperm.trans hlisted).trans (by decide))
  have hb : t.UsedAt ⟨1, "b", "", .noValue⟩ 9 := by decide
  have hc : t.UsedAt ⟨1, "c", "", .noValue⟩ 5 := by decide
  have he : t.UsedAt ⟨1, "é", "", .noValue⟩ 5 := by decide
  have hZ : ¬ t.Used ⟨1, "Z", "", .noValue⟩ := by decide
  have ha : ¬ t.Used ⟨1, "a", "", .noValue⟩ := by decide
  simp only [List.pairwise_cons, List.forall_mem_cons, List.not_mem_nil, false_implies,
    implies_true, List.Pairwise.nil, and_true]
  exact ⟨⟨.later hb hc (by decide), .later hb he (by decide), .used hb.1 hZ, .used hb.1 ha⟩,
    ⟨.together hc he (by decide), .used hc.1 hZ, .used hc.1 ha⟩, ⟨.used he.1 hZ, .used he.1 ha⟩,
    .unused hZ ha (by decide)⟩

end Ranking

end Pinboard.Store
