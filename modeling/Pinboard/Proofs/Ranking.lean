import Mathlib
import Pinboard.Proofs.Mirror

/-!
# The ranking after a batch of uses

Uses of several keys are recorded one after another, and each of them fails or succeeds on its own.
Where nothing disturbs them all succeed, and what the ledger then holds is told by the keys alone,
whatever their order and however often they come. If the moment is later than all others of the
owner, the tags with these keys move to the front of the ranking, and the others stay as they are.
-/

namespace Pinboard.Store

/-- The ranking of an owner, as the tables give it. -/
theorem rankTags_answer {c : Connection} (htags : .tags ∈ c.tables.present)
    (hrecents : .recents ∈ c.tables.present) (owner : UserId) :
    (rankTags .clear owner c).1 = fromStorage (((c.tables.definitionsOf owner).mergeSort
      (ranksBefore c.tables.uses)).mapM TagRow.read) := by
  unfold rankTags
  rw [inspect_ranking rfl htags hrecents, Tables.recentRows_eq_ok.mpr (Tables.recents_eq hrecents),
    Tables.tagsOf_eq htags]
  rfl

/-! ## Requests to a steady connection -/

namespace Connection.Steady

variable {c : Connection} {strategy : Dialect.Strategy} {owner : UserId}

theorem after_recordUse (hc : c.Steady) (strategy : Dialect.Strategy) (owner : UserId)
    (key : String) (moment : Time.Instant) {t : Tables}
    (h : (Store.recordUse .clear strategy owner key moment).Yields c () t) :
    (Store.recordUse .clear strategy owner key moment c).2.Steady := by
  constructor
  · rw [h.2, (recordUse_spec h).present]
    exact hc.tables
  · rcases recordUse_learns .clear strategy owner key moment c with hf | hf <;> rw [hf]
    · exact hc.known
    · exact List.forall_mem_nil _

/-- All uses of a batch are recorded. -/
theorem recordUses (hc : c.Steady) (hx : strategy ≠ .duplicateKey)
    (howner : c.tables.HasUser (wide owner)) (moment : Time.Instant) (keys : List String) :
    (Store.recordUses .clear strategy owner moment keys c).1 = [] ∧
      (Store.recordUses .clear strategy owner moment keys c).2.Steady := by
  induction keys generalizing c with
  | nil => exact ⟨rfl, hc⟩
  | cons key keys ih =>
    obtain ⟨t, hfirst⟩ := hc.recordUse hx howner key moment
    have hsteady := hc.after_recordUse strategy owner key moment hfirst
    have huser : (Store.recordUse .clear strategy owner key moment c).2.tables.HasUser
        (wide owner) := by
      obtain ⟨rows, ht⟩ := (recordUse_spec hfirst).only_recents
      rw [hfirst.2, ht]
      exact howner
    obtain ⟨hnone, hlast⟩ := ih hsteady huser
    rcases hrun : Store.recordUse .clear strategy owner key moment c with ⟨r | u, c1⟩
    · have hok := hfirst.1
      rw [hrun] at hok
      cases hok
    · rw [hrun] at hnone hlast
      simp only [Store.recordUses, hrun]
      exact ⟨hnone, hlast⟩

theorem rankTags (hc : c.Steady) (owner : UserId) : (Store.rankTags .clear owner c).1 = fromStorage
    (((c.tables.definitionsOf owner).mergeSort (ranksBefore c.tables.uses)).mapM TagRow.read) :=
  rankTags_answer (hc.tables .tags) (hc.tables .recents) owner

end Connection.Steady

/-! ## What a batch leaves in the ledger -/

/-- After uses of some keys were put, the ledger holds their moment for these keys, and what it held
for every other. -/
theorem UsesPut.useOf? {owner : UserId} {moment : Time.Instant} {keys : List String}
    {t t' : Tables} (h : UsesPut owner moment keys [] t t') (o : Int) (key : Cell) :
    t'.useOf? o key =
      if o = wide owner ∧ ∃ k ∈ keys, key = .text k then some (.integer moment.millis)
      else t.useOf? o key := by
  generalize hus : ([] : List Unrecorded) = us at h
  induction h with
  | done t => simp
  | @put key' keys us t t1 t' hput _ ih =>
    have hfor : (RecentRow.ofUse owner key' moment).isFor o key = true ↔
        o = wide owner ∧ key = .text key' := by
      rw [RecentRow.isFor_iff]
      exact and_congr eq_comm eq_comm
    rw [ih hus, hput.useOf?]
    simp only [hfor, List.mem_cons, exists_eq_or_imp]
    by_cases ho : o = wide owner
    · by_cases hkey : key = .text key' <;> simp [ho, hkey, RecentRow.ofUse]
    · simp only [ho, false_and, if_false]
  | skip _ _ => cases hus

/-! ## Sorting -/

section Sorting

variable {α β : Type} [LinearOrder β] {rows : List α}

theorem pairwise_mergeSort_le (rank : α → β) (rows : List α) :
    (rows.mergeSort (rank · ≤ rank ·)).Pairwise (rank · ≤ rank ·) := by
  have htrans : ∀ a b c : α, decide (rank a ≤ rank b) = true → decide (rank b ≤ rank c) = true →
      decide (rank a ≤ rank c) = true := by
    intro a b c hab hbc
    rw [decide_eq_true_iff] at hab hbc ⊢
    exact hab.trans hbc
  have htotal : ∀ a b : α, (decide (rank a ≤ rank b) || decide (rank b ≤ rank a)) = true := by
    intro a b
    simpa using le_total (rank a) (rank b)
  simpa using List.pairwise_mergeSort htrans htotal rows

/-- Where some rows are given other ranks, all of them below those that the others keep, they come
first, sorted among themselves, and the others stay in their order. -/
theorem mergeSort_front {rank rank' : α → β} {p : α → Bool}
    (hinj : ∀ a ∈ rows, ∀ b ∈ rows, rank' a = rank' b → a = b)
    (hfront : ∀ a ∈ rows, ∀ b ∈ rows, p a = true → p b = false → rank' a ≤ rank' b)
    (hrest : ∀ a ∈ rows, p a = false → rank' a = rank a) :
    rows.mergeSort (rank' · ≤ rank' ·) =
      (rows.filter p).mergeSort (rank' · ≤ rank' ·) ++
        (rows.mergeSort (rank · ≤ rank ·)).filter (!p ·) := by
  have hperm : (rows.mergeSort (rank' · ≤ rank' ·)).Perm
      ((rows.filter p).mergeSort (rank' · ≤ rank' ·) ++
        (rows.mergeSort (rank · ≤ rank ·)).filter (!p ·)) := by
    refine (List.mergeSort_perm rows _).trans ((List.filter_append_perm p rows).symm.trans ?_)
    exact ((List.mergeSort_perm _ _).symm).append ((List.mergeSort_perm rows _).symm.filter _)
  have hsorted := pairwise_mergeSort_le rank' rows
  refine List.Perm.eq_of_pairwise (fun a b ha hb hab hba => ?_) hsorted ?_ hperm
  · have hmem := hperm.mem_iff.mpr hb
    exact hinj a (List.mem_mergeSort.mp ha) b (List.mem_mergeSort.mp hmem) (le_antisymm hab hba)
  rw [List.pairwise_append]
  refine ⟨pairwise_mergeSort_le rank' _, ?_, fun a ha b hb => ?_⟩
  · refine ((pairwise_mergeSort_le rank rows).filter _).imp_of_mem fun {a b} ha hb hab => ?_
    obtain ⟨ha, hpa⟩ := List.mem_filter.mp ha
    obtain ⟨hb, hpb⟩ := List.mem_filter.mp hb
    rw [hrest a (List.mem_mergeSort.mp ha) (by simpa using hpa),
      hrest b (List.mem_mergeSort.mp hb) (by simpa using hpb)]
    exact hab
  · obtain ⟨ha, hpa⟩ := List.mem_filter.mp (List.mem_mergeSort.mp ha)
    obtain ⟨hb, hpb⟩ := List.mem_filter.mp hb
    exact hfront a ha b (List.mem_mergeSort.mp hb) hpa (by simpa using hpb)

theorem mergeSort_congr {le le' : α → α → Bool} (h : ∀ a ∈ rows, ∀ b ∈ rows, le a b = le' a b) :
    rows.mergeSort le = rows.mergeSort le' := by
  have hmap := List.map_mergeSort (f := id) h
  simpa using hmap

end Sorting

/-! ## Where a tag stands -/

/-- Where a tag stands in a ranking: a later use stands lower, and of two uses at one moment the one
with the smaller key. No use is the earliest. -/
abbrev Standing := (WithBot Int)ᵒᵈ ×ₗ String

/-- The standing of a tag with its last use and its key. -/
def standing (use : WithBot Int) (key : String) : Standing := toLex (OrderDual.toDual use, key)

/-- The text in a cell. -/
def Cell.wording : Cell → String
  | text s => s
  | _ => ""

/-- The moment of a use, if there is one and it is a whole number. -/
def momentOf : Option Cell → WithBot Int
  | some (.integer n) => (n : Int)
  | _ => ⊥

/-- The standing of a row. -/
def TagRow.standing (recents : List RecentRow) (r : TagRow) : Standing :=
  Store.standing (momentOf (lastUse? recents r)) r.key.wording

theorem standing_le {u v : WithBot Int} {k l : String} :
    standing u k ≤ standing v l ↔ v < u ∨ u = v ∧ k ≤ l := by
  unfold standing
  rw [Prod.Lex.toLex_le_toLex]
  rfl

theorem standing_lt {u v : WithBot Int} {k l : String} :
    standing u k < standing v l ↔ v < u ∨ u = v ∧ k < l := by
  unfold standing
  rw [Prod.Lex.toLex_lt_toLex]
  rfl

theorem Cell.isLE_compare_text (k l : String) :
    ((Cell.text k).compare (.text l)).isLE = true ↔ k ≤ l := by
  show (Ord.compare k l).isLE = true ↔ k ≤ l
  exact Std.LawfulBCmp.isLE_iff_le

/-- Whole numbers and keys that are texts are compared as their standings are. -/
theorem compareUse_then {u v : Option Cell} (hu : ∀ c ∈ u, ∃ n, c = .integer n)
    (hv : ∀ c ∈ v, ∃ n, c = .integer n) (k l : String) :
    ((compareUse u v).then ((Cell.text k).compare (.text l))).isLE = true ↔
      standing (momentOf u) k ≤ standing (momentOf v) l := by
  have hkeys := Cell.isLE_compare_text k l
  rw [standing_le]
  rcases u with _ | c <;> rcases v with _ | d
  · simpa [compareUse, momentOf] using hkeys
  · obtain ⟨n, rfl⟩ := hv d rfl
    simp [compareUse, momentOf, Ordering.then]
  · obtain ⟨m, rfl⟩ := hu c rfl
    simp [compareUse, momentOf, Ordering.then]
  · obtain ⟨m, rfl⟩ := hu c rfl
    obtain ⟨n, rfl⟩ := hv d rfl
    have hmoments : (Cell.integer n).compare (.integer m) = compare n m := rfl
    rw [eq_comm (a := momentOf _)]
    simp only [compareUse, momentOf, hmoments, Ordering.isLE_then_iff_or, Int.compare_eq_lt,
      Int.compare_eq_eq, hkeys, WithBot.coe_lt_coe, WithBot.coe_inj]

/-! ## Rows that can be read -/

/-- The cells of a tag definition hold texts. -/
structure TagRow.Legible (r : TagRow) : Prop where
  /-- The key is a text. -/
  key : r.key = .text r.key.wording
  /-- The colour is a text. -/
  color : r.color = .text r.color.wording
  /-- The name of the kind is a text. -/
  kind : r.kind = .text r.kind.wording

/-- The tag that is read from a row of an owner. -/
def TagRow.tag (owner : UserId) (r : TagRow) : Tag :=
  ⟨owner, r.key.wording, r.color.wording, TagKind.ofName r.kind.wording⟩

section Legible

variable {owner : UserId} {r : TagRow} {rows : List TagRow}

theorem readUInt32_wide (id : UInt32) (column : Nat) : readUInt32 (wide id) column = .ok id := by
  rw [readUInt32_eq (wide_nonneg id) (wide_lt id), cut32_wide]

theorem TagRow.Legible.read (h : r.Legible) (howner : r.owner = wide owner) :
    r.read = .ok (r.tag owner) := by
  have hkind : r.kind.readText 3 "tag_type" = .ok r.kind.wording := by rw [h.kind]; rfl
  have hid : readUInt32 r.owner 0 = .ok owner := by
    rw [howner, readUInt32_wide]
  have hkey : r.key.readText 1 "key" = .ok r.key.wording := by rw [h.key]; rfl
  have hcolor : r.color.readText 2 "color" = .ok r.color.wording := by rw [h.color]; rfl
  unfold TagRow.read
  rw [hkind, hid, hkey, hcolor]
  rfl

theorem mapM_read (h : ∀ r ∈ rows, r.Legible) (howner : ∀ r ∈ rows, r.owner = wide owner) :
    rows.mapM TagRow.read = .ok (rows.map (·.tag owner)) := by
  induction rows with
  | nil => rfl
  | cons r rows ih =>
    obtain ⟨hr, hrows⟩ := List.forall_mem_cons.mp h
    obtain ⟨ho, hos⟩ := List.forall_mem_cons.mp howner
    rw [List.mapM_cons, hr.read ho, ih hrows hos]
    rfl

end Legible

/-- The ledger of an owner and the rows of its tags are as they should be: each key comes once, tags
can be read, and moments are whole numbers below some bound. -/
structure Tables.Rankable (t : Tables) (owner : UserId) (bound : Int) : Prop where
  /-- Each key of the owner comes once. -/
  keys : ((t.definitionsOf owner).map (·.key)).Nodup
  /-- The tags can be read. -/
  legible : ∀ r ∈ t.definitionsOf owner, r.Legible
  /-- The moments are whole numbers below the bound. -/
  moments : ∀ r ∈ t.usesOf owner, ∃ n, r.lastUsed = .integer n ∧ n < bound

namespace Tables.Rankable

variable {t : Tables} {owner : UserId} {bound : Int}

theorem lastUse (h : t.Rankable owner bound) {r : TagRow} (hr : r ∈ t.definitionsOf owner) :
    ∀ c ∈ lastUse? t.uses r, ∃ n, c = .integer n ∧ n < bound := by
  intro c hc
  have howner : r.owner = wide owner := by simpa using (List.mem_filter.mp hr).2
  obtain ⟨use, huse, rfl⟩ := Option.map_eq_some_iff.mp hc
  have hfor := (RecentRow.isFor_iff.mp (isFor_of_find? huse)).1
  refine h.moments use (List.mem_filter.mpr ⟨List.mem_of_find?_eq_some huse, ?_⟩)
  rw [hfor, howner]
  exact beq_self_eq_true _

end Tables.Rankable

/-- Where each key comes once, a row is told by its standing. -/
theorem eq_of_standing {rows : List TagRow} {recents : List RecentRow}
    (hrows : ∀ r ∈ rows, r.Legible) (hkeys : (rows.map (·.key)).Nodup) {a b : TagRow}
    (ha : a ∈ rows) (hb : b ∈ rows) (hab : a.standing recents = b.standing recents) : a = b := by
  have hwording : a.key.wording = b.key.wording := congrArg (fun s : Standing => (ofLex s).2) hab
  refine List.inj_on_of_nodup_map hkeys ha hb ?_
  rw [(hrows a ha).key, (hrows b hb).key, hwording]

theorem ranksBefore_eq {recents : List RecentRow} {a b : TagRow} (ha : a.Legible) (hb : b.Legible)
    (hua : ∀ c ∈ lastUse? recents a, ∃ n, c = .integer n)
    (hub : ∀ c ∈ lastUse? recents b, ∃ n, c = .integer n) :
    ranksBefore recents a b = decide (a.standing recents ≤ b.standing recents) := by
  have hiff := compareUse_then hua hub a.key.wording b.key.wording
  rw [← ha.key, ← hb.key] at hiff
  rw [Bool.eq_iff_iff, decide_eq_true_iff]
  exact hiff

/-! ## The batch -/

section Batch

variable {c : Connection} {strategy : Dialect.Strategy} {owner : UserId} {moment : Time.Instant}
  {keys : List String}

/-- The last use of a tag after a batch. -/
theorem lastUse?_after {t t' : Tables} (h : UsesPut owner moment keys [] t t') {r : TagRow}
    (hr : r.Legible) (howner : r.owner = wide owner) :
    lastUse? t'.uses r = if keys.contains r.key.wording then some (.integer moment.millis)
      else lastUse? t.uses r := by
  have huse := h.useOf? r.owner r.key
  have hkey : (r.owner = wide owner ∧ ∃ k ∈ keys, r.key = .text k) ↔
      keys.contains r.key.wording = true := by
    rw [List.contains_iff_mem]
    constructor
    · rintro ⟨-, k, hk, hrk⟩
      rw [hrk]
      exact hk
    · exact fun hk => ⟨howner, _, hk, hr.key⟩
  simp only [hkey] at huse
  exact huse

/-- A ranking is the rows sorted by their standings. -/
theorem mergeSort_ranksBefore {rows : List TagRow} {recents : List RecentRow}
    (hrows : ∀ r ∈ rows, r.Legible)
    (huses : ∀ r ∈ rows, ∀ use ∈ lastUse? recents r, ∃ n, use = .integer n) :
    rows.mergeSort (ranksBefore recents) =
      rows.mergeSort (·.standing recents ≤ ·.standing recents) :=
  mergeSort_congr fun a ha b hb =>
    ranksBefore_eq (hrows a ha) (hrows b hb) (huses a ha) (huses b hb)

/-- Tags that were all used at one moment are ranked by key. -/
theorem mergeSort_same_moment {rows : List TagRow} {recents : List RecentRow} {now : Int}
    (hrows : ∀ r ∈ rows, r.Legible) (hkeys : (rows.map (·.key)).Nodup)
    (hnow : ∀ r ∈ rows, r.standing recents = standing now r.key.wording) :
    (rows.mergeSort (·.standing recents ≤ ·.standing recents)).Pairwise
      (·.key.wording < ·.key.wording) := by
  have hsorted := pairwise_mergeSort_le (TagRow.standing recents) rows
  have hdistinct := (List.mergeSort_perm rows
    (·.standing recents ≤ ·.standing recents)).nodup_iff.mpr (List.Nodup.of_map _ hkeys)
  refine (hsorted.and hdistinct).imp_of_mem fun {a b} ha hb hab => ?_
  obtain ⟨hle, hne⟩ := hab
  have ha := List.mem_mergeSort.mp ha
  have hb := List.mem_mergeSort.mp hb
  have hstanding : a.standing recents ≠ b.standing recents :=
    fun h => hne (eq_of_standing hrows hkeys ha hb h)
  rw [hnow a ha, hnow b hb] at hle hstanding
  rcases standing_le.mp hle with hlt | ⟨-, hkey⟩
  · exact absurd hlt (lt_irrefl _)
  · exact lt_of_le_of_ne hkey fun h => hstanding (by rw [h])

/-- Where some tags are given a use later than all others, they move to the front, by key. -/
theorem mergeSort_used {rows : List TagRow} {recents recents' : List RecentRow} {now : Int}
    {p : TagRow → Bool} (hrows : ∀ r ∈ rows, r.Legible) (hkeys : (rows.map (·.key)).Nodup)
    (hold : ∀ r ∈ rows, ∀ use ∈ lastUse? recents r, ∃ n, use = .integer n ∧ n < now)
    (hnew : ∀ r ∈ rows, lastUse? recents' r =
      if p r then some (.integer now) else lastUse? recents r) :
    ∃ front, front.Perm (rows.filter p) ∧
      front.Pairwise (fun a b => a.key.wording < b.key.wording) ∧
      rows.mergeSort (ranksBefore recents') =
        front ++ (rows.mergeSort (ranksBefore recents)).filter (!p ·) := by
  have hold' : ∀ r ∈ rows, ∀ use ∈ lastUse? recents r, ∃ n, use = .integer n := by
    intro r hr use huse
    obtain ⟨n, hn, -⟩ := hold r hr use huse
    exact ⟨n, hn⟩
  have hnew' : ∀ r ∈ rows, ∀ use ∈ lastUse? recents' r, ∃ n, use = .integer n := by
    intro r hr use huse
    rw [hnew r hr] at huse
    split at huse
    · exact ⟨now, (Option.some.inj huse).symm⟩
    · exact hold' r hr use huse
  have hfresh : ∀ r ∈ rows, p r = true → r.standing recents' = standing now r.key.wording := by
    intro r hr hp
    unfold TagRow.standing
    rw [hnew r hr, if_pos hp]
    rfl
  have hkept : ∀ r ∈ rows, p r = false → r.standing recents' = r.standing recents := by
    intro r hr hp
    unfold TagRow.standing
    rw [hnew r hr, hp]
    rfl
  have hearlier : ∀ r ∈ rows, momentOf (lastUse? recents r) < (now : WithBot Int) := by
    intro r hr
    cases huse : lastUse? recents r with
    | none => exact WithBot.bot_lt_coe now
    | some use =>
      obtain ⟨n, rfl, hn⟩ := hold r hr use huse
      exact WithBot.coe_lt_coe.mpr hn
  refine ⟨(rows.filter p).mergeSort (·.standing recents' ≤ ·.standing recents'),
    List.mergeSort_perm _ _, ?_, ?_⟩
  · have hnow : ∀ r ∈ rows.filter p, r.standing recents' = standing now r.key.wording := by
      intro r hr
      obtain ⟨hr, hp⟩ := List.mem_filter.mp hr
      exact hfresh r hr hp
    exact mergeSort_same_moment (fun r hr => hrows r (List.mem_filter.mp hr).1)
      (hkeys.sublist (List.filter_sublist.map _)) hnow
  · rw [mergeSort_ranksBefore hrows hnew', mergeSort_ranksBefore hrows hold']
    refine mergeSort_front (fun a ha b hb => eq_of_standing hrows hkeys ha hb) ?_ hkept
    intro a ha b hb hpa hpb
    rw [hfresh a ha hpa, hkept b hb hpb]
    exact standing_le.mpr (Or.inl (hearlier b hb))

/-- The uses of a batch, at a moment that is later than all others of their owner, move the tags
with these keys to the front of the ranking, by key, however often a key comes and whether or not
there is a tag with it. The other tags stay behind them in the order in which they were. -/
theorem batch_moves_to_front (hc : c.Steady) (hx : strategy ≠ .duplicateKey)
    (howner : c.tables.HasUser (wide owner)) (ht : c.tables.Rankable owner moment.millis)
    (keys : List String) :
    ∃ tags ranked front,
      (c.tables.definitionsOf owner).mapM TagRow.read = .ok tags ∧
      (rankTags .clear owner c).1 = .ok ranked ∧ ranked.Perm tags ∧
      front.Perm (tags.filter (keys.contains ·.key)) ∧ front.Pairwise (·.key < ·.key) ∧
      (recordUses .clear strategy owner moment keys c).1 = [] ∧
      (rankTags .clear owner (recordUses .clear strategy owner moment keys c).2).1 =
        .ok (front ++ ranked.filter (!keys.contains ·.key)) := by
  obtain ⟨hnone, hsteady⟩ := hc.recordUses hx howner moment keys
  have hput := recordUses_spec .clear strategy owner moment keys c
  rw [hnone] at hput
  have hranked := hc.rankTags owner
  have hafter := hsteady.rankTags owner
  generalize (recordUses .clear strategy owner moment keys c).2 = after at hput hafter ⊢
  have hrows : after.tables.definitionsOf owner = c.tables.definitionsOf owner := by
    obtain ⟨recents, ht'⟩ := hput.only_recents
    rw [ht']
    rfl
  have howns : ∀ r ∈ c.tables.definitionsOf owner, r.owner = wide owner := fun r hr => by
    simpa using (List.mem_filter.mp hr).2
  obtain ⟨front, hperm, hsorted, hsort⟩ := mergeSort_used ht.legible ht.keys
    (fun r hr => ht.lastUse hr)
    (fun r hr => lastUse?_after hput (ht.legible r hr) (howns r hr))
  have hread : ∀ rows : List TagRow, (∀ r ∈ rows, r ∈ c.tables.definitionsOf owner) →
      rows.mapM TagRow.read = .ok (rows.map (·.tag owner)) := fun rows hmem =>
    mapM_read (fun r hr => ht.legible r (hmem r hr)) fun r hr => howns r (hmem r hr)
  rw [hread _ fun r hr => List.mem_mergeSort.mp hr] at hranked
  rw [hrows, hread _ fun r hr => List.mem_mergeSort.mp hr, hsort] at hafter
  refine ⟨_, _, front.map (·.tag owner), hread _ fun _ hr => hr, hranked, ?_, ?_, ?_, hnone, ?_⟩
  · exact (List.mergeSort_perm _ _).map _
  · rw [List.filter_map]
    exact hperm.map _
  · exact List.pairwise_map.mpr hsorted
  · rw [hafter, List.map_append, List.filter_map]
    rfl

/-- Of four tags two are used for the first time and one anew, one key comes twice, and one belongs
to no tag. -/
theorem batch_moves_to_front_of_four :
    let c : Connection := ⟨{ Tables.fresh with
      users := some [⟨1, .text "u"⟩]
      tags := some [⟨1, 1, .text "b", .text "", .text "novalue"⟩,
        ⟨2, 1, .text "a", .text "", .text "novalue"⟩, ⟨3, 1, .text "c", .text "", .text "novalue"⟩,
        ⟨4, 1, .text "d", .text "", .text "singlevalue"⟩]
      recents := some [⟨1, 1, .text "d", .integer 5⟩, ⟨2, 1, .text "c", .integer 5⟩] }, {}, 0⟩
    let moment : Time.Instant := ⟨1, 0, by decide⟩
    let after := (recordUses .clear .conflictTarget 1 moment ["b", "d", "b", "z", "a"] c).2
    (rankTags .clear 1 after).1 = .ok [⟨1, "a", "", .noValue⟩, ⟨1, "b", "", .noValue⟩,
      ⟨1, "d", "", .singleValue⟩, ⟨1, "c", "", .noValue⟩] := by
  intro c moment after
  have hc : c.Steady := ⟨fun table => by cases table <;> decide, List.forall_mem_nil _⟩
  have ht : c.tables.Rankable 1 moment.millis := by
    refine ⟨by decide +kernel, ?_, ?_⟩
    · intro r hr
      have hmem : r ∈ c.tables.definitions := (List.mem_filter.mp hr).1
      simp only [c, Tables.definitions, Option.getD_some, List.mem_cons, List.not_mem_nil,
        or_false] at hmem
      rcases hmem with rfl | rfl | rfl | rfl <;> exact ⟨rfl, rfl, rfl⟩
    · intro r hr
      have hmem : r ∈ c.tables.uses := (List.mem_filter.mp hr).1
      simp only [c, Tables.uses, Option.getD_some, List.mem_cons, List.not_mem_nil,
        or_false] at hmem
      rcases hmem with rfl | rfl <;> exact ⟨5, rfl, by decide⟩
  have howner : c.tables.HasUser (wide 1) := by decide
  have hx : Dialect.Strategy.conflictTarget ≠ .duplicateKey := by decide
  obtain ⟨tags, ranked, front, htags, -, hperm, hfront, hsorted, -, hafter⟩ :=
    batch_moves_to_front hc hx howner ht ["b", "d", "b", "z", "a"]
  have hread : (c.tables.definitionsOf 1).mapM TagRow.read = .ok [⟨1, "b", "", .noValue⟩,
      ⟨1, "a", "", .noValue⟩, ⟨1, "c", "", .noValue⟩, ⟨1, "d", "", .singleValue⟩] := by
    decide +kernel
  cases htags.symm.trans hread
  have hsame : front = [⟨1, "a", "", .noValue⟩, ⟨1, "b", "", .noValue⟩,
      ⟨1, "d", "", .singleValue⟩] := by
    refine List.Perm.eq_of_pairwise (fun a b _ _ hab hba => absurd hba (lt_asymm hab)) hsorted
      (by decide +kernel) (hfront.trans ?_)
    exact List.Perm.swap _ _ _
  have hrest : ranked.filter (fun t => !(["b", "d", "b", "z", "a"].contains t.key)) =
      [⟨1, "c", "", .noValue⟩] := List.perm_singleton.mp (hperm.filter _)
  rw [hsame, hrest] at hafter
  exact hafter

end Batch

end Pinboard.Store
