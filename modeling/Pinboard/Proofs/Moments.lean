import Pinboard.Proofs.Batches
import Pinboard.Proofs.Handles
import Pinboard.Proofs.Millis
import Pinboard.Proofs.RankOrder

/-!
# Moments in the ledger

The ledger keeps moments as whole milliseconds. What is found of a use that was recorded is its
moment as whole milliseconds give it back, and tags are ranked in the order that whole milliseconds
keep of the moments of their uses.
-/

namespace Pinboard.Store

/-! ## Read back -/

section Read

variable {strategy : Dialect.Strategy} {owner : UserId} {key : String} {moment : Time.Instant}
  {c : Connection}

theorem ready_of_putRecent {s : Setting} {row : RecentRow} {t t' : Tables} {u : Unit}
    (h : putRecent s strategy row t = .ok (u, t')) : t.ready s .recents .insert = .ok () := by
  cases strategy with
  | replace => exact (replaceRecent_eq_ok.mp h).1
  | duplicateKey => cases h
  | conflictTarget => exact (mergeRecent_eq_ok.mp h).1

/-- A use that was recorded is found, if its milliseconds are those of a moment. -/
theorem findUse_after_recordUse (h : (recordUse .clear strategy owner key moment c).1 = .ok ()) :
    (findUse .clear owner key (recordUse .clear strategy owner key moment c).2).1 =
      match Time.Instant.ofMillis? moment.millis with
      | some read => .ok (some ⟨owner, key, read⟩)
      | none => .error (.badMoment moment.millis key) := by
  have huse := useOf?_of_recordUse h
  have hpresent : .recents ∈ (recordUse .clear strategy owner key moment c).2.tables.present := by
    obtain ⟨-, -, hput⟩ := recordUse_yields.mp ⟨h, rfl⟩
    rw [(putRecent_spec hput).present]
    exact Tables.mem_present_of_ready (ready_of_putRecent hput)
  generalize (recordUse .clear strategy owner key moment c).2 = c1 at huse hpresent ⊢
  unfold findUse
  rw [inspect_table rfl hpresent, Tables.recentRows_eq_ok.mpr (Tables.recents_eq hpresent)]
  obtain ⟨r, hfind, hused⟩ := Option.map_eq_some_iff.mp huse
  dsimp only
  rw [hfind]
  dsimp only
  rw [hused]
  rfl

end Read

/-! ## Ranked -/

section Ranked

variable {t : Tables} {a b : Tag}

/-- The moment that the ledger holds for a tag is the only one that it was used at. -/
theorem Tables.Rankings.usedAt (h : t.Rankings) {n : Int}
    (huse : t.useOf? (wide a.owner) (.text a.key) = some (.integer n)) : t.UsedAt a n := by
  obtain ⟨r, hfind, hused⟩ := Option.map_eq_some_iff.mp huse
  have hmem := List.mem_of_find?_eq_some hfind
  obtain ⟨howner, hkey⟩ := RecentRow.isFor_iff.mp (isFor_of_find? hfind)
  refine ⟨⟨r, hmem, howner, hkey⟩, fun r' hr' howner' hkey' => ?_⟩
  have hslot : r'.slot = r.slot := by
    rw [RecentRow.slot, RecentRow.slot, howner, hkey, howner', hkey']
  rw [List.inj_on_of_nodup_map h.slots hr' hmem hslot, hused]

/-- Of two tags that were used, the one that is ranked first was used later, or at the same moment
and has the smaller key. -/
theorem Tables.RankedBefore.of_used {m n : Int} (h : t.RankedBefore a b) (ha : t.UsedAt a m)
    (hb : t.UsedAt b n) :
    n < m ∨ m = n ∧ Cell.compareBytes (Cell.bytesOf a.key) (Cell.bytesOf b.key) = .lt := by
  cases h with
  | used _ hnot => exact absurd hb.1 hnot
  | later ha' hb' hlt =>
    left
    rw [ha.unique ha', hb.unique hb']
    exact hlt
  | together ha' hb' hlt =>
    right
    rw [ha.unique ha', hb.unique hb']
    exact ⟨rfl, hlt⟩
  | unused hnot _ _ => exact absurd ha.1 hnot

end Ranked

/-- A use that was recorded is found with its moment rounded down to milliseconds, or, where the
moment lies in a leap second, with what is as far into the second after it; only in the last second
of all it cannot be told. Of two moments, the earlier one is kept as the later one exactly if it
overtakes the other from within a leap second. Otherwise the tag that was used earlier is ranked
first only if both moments are kept as one, and by its key. -/
theorem moments_keep_their_order :
    (∀ (strategy : Dialect.Strategy) (owner : UserId) (key : String) (moment : Time.Instant)
        (c : Connection), (recordUse .clear strategy owner key moment c).1 = .ok () →
      let left := (recordUse .clear strategy owner key moment c).2
      let found := (findUse .clear owner key left).1
      left.tables.useOf? (wide owner) (.text key) = some (.integer moment.millis) ∧
        if moment.InLeap then
          match moment.pastLeap? with
          | some later => found = .ok (some ⟨owner, key, later⟩)
          | none => moment.second = Time.latestSecond ∧
              found = .error (.badMoment moment.millis key)
        else found = .ok (some ⟨owner, key, moment.wholeMillis⟩)) ∧
    (∀ s t : Time.Instant, s.Before t → (t.millis < s.millis ↔ s.Overtakes t)) ∧
    ∀ (c : Connection) (a b : Tag) (s t : Time.Instant), c.tables.Rankings →
      a.owner = b.owner →
      c.tables.useOf? (wide a.owner) (.text a.key) = some (.integer s.millis) →
      c.tables.useOf? (wide b.owner) (.text b.key) = some (.integer t.millis) →
      s.Before t → ¬ s.Overtakes t →
      ∃ ranked, (rankTags .clear a.owner c).1 = .ok ranked ∧
        ([a, b].Sublist ranked → s.millis = t.millis ∧
          Cell.compareBytes (Cell.bytesOf a.key) (Cell.bytesOf b.key) = .lt) := by
  refine ⟨fun strategy owner key moment c h => ⟨useOf?_of_recordUse h, ?_⟩,
    fun s t => Time.Instant.millis_lt_iff, fun c a b s t ht howner ha hb hbefore hnot => ?_⟩
  · have hfound := findUse_after_recordUse h
    rw [Time.Instant.ofMillis?_millis] at hfound
    by_cases hleap : moment.InLeap
    · rw [if_pos hleap] at hfound ⊢
      cases hpast : moment.pastLeap? with
      | some later =>
        rw [hpast] at hfound
        exact hfound
      | none =>
        rw [hpast] at hfound
        exact ⟨(Time.Instant.pastLeap?_eq_none_iff hleap).mp hpast, hfound⟩
    · rw [if_neg hleap] at hfound ⊢
      exact hfound
  · have hranked := List.mergeSort_perm (c.tables.definitionsOf a.owner)
      (ranksBefore c.tables.uses)
    refine ⟨_, by rw [rankTags_answer ht.tags ht.recents, ht.mapM_read hranked]; rfl,
      fun hsub => ?_⟩
    have hplaces := List.pairwise_pair.mp ((ht.pairwise a.owner).sublist hsub)
    rcases hplaces.of_used (ht.usedAt ha) (ht.usedAt hb) with hlt | htogether
    · exact absurd ((Time.Instant.millis_lt_iff hbefore).mp hlt) hnot
    · exact htogether

/-- A moment before 1970 and one a little later are kept as one, so that the keys decide; the first
moment is found again rounded down. -/
theorem moments_keep_their_order_before_epoch :
    let early : Time.Instant := ⟨-1, 999500000, by decide⟩
    let late : Time.Instant := ⟨-1, 999900000, by decide⟩
    let start : Connection := ⟨{ Tables.fresh with
      users := some [⟨1, .text "u"⟩]
      tags := some [⟨1, 1, .text "b", .text "", .text "novalue"⟩,
        ⟨2, 1, .text "a", .text "", .text "novalue"⟩] }, {}, 0⟩
    let first := (recordUse .clear .replace 1 "a" early start).2
    let second := (recordUse .clear .replace 1 "b" late first).2
    (recordUse .clear .replace 1 "a" early start).1 = .ok () ∧
      (findUse .clear 1 "a" first).1 = .ok (some ⟨1, "a", ⟨-1, 999000000, by decide⟩⟩) ∧
      second.tables.Rankings ∧ early.Before late ∧ ¬ early.Overtakes late ∧
      ∃ ranked, (rankTags .clear 1 second).1 = .ok ranked ∧
        ([⟨1, "a", "", .noValue⟩, ⟨1, "b", "", .noValue⟩].Sublist ranked →
          early.millis = late.millis ∧ Cell.compareBytes [97] [98] = .lt) := by
  intro early late start first second
  obtain ⟨hread, -, hranked⟩ := moments_keep_their_order
  have hgranted : (recordUse .clear .replace 1 "a" early start).1 = .ok () := by decide
  have hfound := (hread .replace 1 "a" early start hgranted).2
  have hwhole : early.wholeMillis = ⟨-1, 999000000, by decide⟩ := by decide
  rw [if_neg (by decide), hwhole] at hfound
  have hrankings : second.tables.Rankings := by
    refine ⟨by decide, by decide, by decide, by decide, fun r hr => ?_, fun r hr => ?_⟩
    · have hcells : ∀ r ∈ second.tables.definitions, r.key = .text r.key.wording ∧
          r.color = .text r.color.wording ∧ r.kind = .text r.kind.wording := by decide
      obtain ⟨hkey, hcolor, hkind⟩ := hcells r hr
      exact ⟨hkey, hcolor, hkind⟩
    · have hmoments : ∀ r ∈ second.tables.uses, r.lastUsed = .integer r.lastUsed.place := by
        decide
      exact ⟨_, hmoments r hr⟩
  have hbefore : early.Before late := by decide
  have hnot : ¬ early.Overtakes late := by decide
  exact ⟨hgranted, hfound, hrankings, hbefore, hnot,
    hranked second ⟨1, "a", "", .noValue⟩ ⟨1, "b", "", .noValue⟩ early late hrankings rfl
      (by decide) (by decide) hbefore hnot⟩

/-- A moment in a leap second is found again as one in the next second, which is not that moment
rounded down. One leap second further on it counts as later than the moment that follows it, and is
ranked first. In the last second of all it is not found again. -/
theorem leap_second_runs_ahead :
    let leap : Time.Instant := ⟨59, 1500000000, by decide⟩
    let early : Time.Instant := ⟨59, 1999000000, by decide⟩
    let late : Time.Instant := ⟨60, 0, by decide⟩
    let last : Time.Instant := ⟨Time.latestSecond, 1000000000, by decide⟩
    let start : Connection := ⟨{ Tables.fresh with
      users := some [⟨1, .text "u"⟩]
      tags := some [⟨1, 1, .text "a", .text "", .text "novalue"⟩,
        ⟨2, 1, .text "b", .text "", .text "novalue"⟩] }, {}, 0⟩
    let record (key : String) (moment : Time.Instant) (c : Connection) :=
      (recordUse .clear .replace 1 key moment c).2
    (recordUse .clear .replace 1 "a" leap start).1 = .ok () ∧
      (findUse .clear 1 "a" (record "a" leap start)).1 =
        .ok (some ⟨1, "a", ⟨60, 500000000, by decide⟩⟩) ∧
      leap.wholeMillis ≠ ⟨60, 500000000, by decide⟩ ∧
      early.Before late ∧ late.millis < early.millis ∧
      (rankTags .clear 1 (record "b" late (record "a" early start))).1 =
        .ok [⟨1, "a", "", .noValue⟩, ⟨1, "b", "", .noValue⟩] ∧
      (recordUse .clear .replace 1 "a" last start).1 = .ok () ∧
      (findUse .clear 1 "a" (record "a" last start)).1 =
        .error (.badMoment 8210266876800000 "a") := by
  intro leap early late last start record
  refine ⟨by decide, by decide, by decide, by decide, by decide, by cbv, by decide, by decide⟩

end Pinboard.Store
