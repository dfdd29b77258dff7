import Pinboard.Proofs.Uses

/-!
# What a request can touch

For each request, the rows that it can make, change or remove at most, whatever the tables hold and
whatever comes of it. The footprint of a request says nothing of when it is granted, so it holds in
every state: with rows that nobody would have written, with faults, and with locks.
-/

namespace Pinboard.Store

/-! ## Rows that stay -/

/-- Each row of an owner may have another position; everything else is as before. -/
def Repositioned (owner : UserId) (rows rows' : List DashboardRow) : Prop :=
  ∃ f : DashboardRow → DashboardRow, rows' = rows.map f ∧
    ∀ r, f r = r ∨ r.owner = wide owner ∧ ∃ order, f r = { r with order := order }

/-- What a dashboard is, wherever it stands: its number, its owner and its name. -/
def DashboardRow.identity (r : DashboardRow) : Int × Int × Cell := (r.id, r.owner, r.name)

/-- The identities of the dashboards that there are. -/
def Tables.identities (t : Tables) : List (Int × Int × Cell) :=
  (t.dashboards.getD []).map (·.identity)

/-- Is it a use of one of some keys by an owner? -/
def RecentRow.isForAny (r : RecentRow) (owner : UserId) (keys : List String) : Bool :=
  keys.any fun key => r.isFor (wide owner) (.text key)

/-- Uses of some keys may have come, or been given another moment. -/
structure Recorded (owner : UserId) (keys : List String) (moment : Time.Instant)
    (t t' : Tables) : Prop where
  /-- Only the ledger can differ. -/
  ledger : t' = { t with recents := t'.recents }
  /-- It is there if it was. -/
  present : t'.recents.isSome = t.recents.isSome
  /-- The rows of other users and keys are the same, in the same order. -/
  others : t'.uses.filter (!·.isForAny owner keys) = t.uses.filter (!·.isForAny owner keys)
  /-- Each row of these keys was there, or has the moment. -/
  moments : ∀ r ∈ t'.uses, r.isForAny owner keys = true →
    r ∈ t.uses ∨ r.lastUsed = .integer moment.millis
  /-- No use is lost. -/
  kept : ∀ r ∈ t.uses, ∃ r' ∈ t'.uses, r'.slot = r.slot
  /-- No second row comes for a key. -/
  once : ∀ o key,
    t'.uses.countP (·.isFor o key) ≤ max 1 (t.uses.countP (·.isFor o key))

/-! ## Footprints -/

/-- What a request may do to the tables, if it does anything. -/
def Request.touches (t t' : Tables) : Request → Prop
  | createUser name => ∃ rows row, t.users = some rows ∧ row.name = .text name ∧
      (∀ r ∈ rows, r.id ≠ row.id) ∧
      t' = { t with users := some (rows ++ [row]), lastUser := max t.lastUser row.id }
  | removeUser id => t' = { t.withoutBelongings (· == wide id) with
      users := t.users.map (·.filter (!·.id == wide id)) }
  | createDashboard draft => ∃ rows row, t.dashboards = some rows ∧
      row.owner = wide draft.owner ∧ row.name = .text draft.name ∧
      (∀ r ∈ rows, r.id ≠ row.id) ∧
      t' = { t with
        dashboards := some (rows ++ [row]), lastDashboard := max t.lastDashboard row.id }
  | moveDashboard owner _ _ => ∃ rows rows', t.dashboards = some rows ∧
      Repositioned owner rows rows' ∧ t' = { t with dashboards := some rows' }
  | reindexDashboards owner => ∃ rows rows', t.dashboards = some rows ∧
      Repositioned owner rows rows' ∧ t' = { t with dashboards := some rows' }
  | removeDashboard owner id => ∃ rows rows', t.dashboards = some rows ∧
      Repositioned owner
        (rows.filter fun r => !(r.id == wide id && r.owner == wide owner)) rows' ∧
      t' = { t with dashboards := some rows' }
  | createTag tag => ∃ rows row, t.tags = some rows ∧
      row.owner = wide tag.owner ∧ row.key = .text tag.key ∧
      (∀ r ∈ rows, ¬ (r.owner = row.owner ∧ r.key = row.key)) ∧
      t' = { t with tags := some (rows ++ [row]) }
  | removeTag owner key => t' = { t with
      tags := t.tags.map (·.filter fun r => !(r.owner == wide owner && r.key == .text key))
      recents := t.recents.map (·.filter (!·.isFor (wide owner) (.text key))) }
  | recordUse _ owner key moment => Recorded owner [key] moment t t'
  | recordUses _ owner keys moment => Recorded owner keys moment t t'
  | findUser _ => False
  | findDashboard _ _ => False
  | listDashboards _ => False
  | findTag _ _ => False
  | listTags _ => False
  | rankTags _ => False
  | findUse _ _ => False

/-- What a request does to the tables at most. -/
def Request.Footprint (r : Request) (t t' : Tables) : Prop := t' = t ∨ r.touches t t'

/-! ## Positions -/

theorem Repositioned.refl (owner : UserId) (rows : List DashboardRow) :
    Repositioned owner rows rows :=
  ⟨id, (List.map_id rows).symm, fun _ => Or.inl rfl⟩

theorem Repositioned.trans {owner : UserId} {rows rows1 rows2 : List DashboardRow}
    (h1 : Repositioned owner rows rows1) (h2 : Repositioned owner rows1 rows2) :
    Repositioned owner rows rows2 := by
  obtain ⟨f, rfl, hf⟩ := h1
  obtain ⟨g, rfl, hg⟩ := h2
  refine ⟨g ∘ f, List.map_map, fun r => ?_⟩
  rw [Function.comp_apply]
  rcases hf r with hr | ⟨howner, order, hr⟩
  · rw [hr]
    exact hg r
  · right
    refine ⟨howner, ?_⟩
    rw [hr]
    rcases hg { r with order := order } with h | ⟨-, order', h⟩
    · exact ⟨order, h⟩
    · exact ⟨order', h⟩

/-- Writing positions moves dashboards of the owner only, even where numbers come twice. -/
theorem placed_repositioned (owner : UserId) (i : Nat) (ids : List UInt32)
    (rows : List DashboardRow) : Repositioned owner rows (placed owner i ids rows) := by
  induction ids generalizing i rows with
  | nil => exact .refl owner rows
  | cons id ids ih =>
    refine Repositioned.trans ⟨_, rfl, fun r => ?_⟩ (ih (i + 1) _)
    by_cases hr : (r.id == wide id && r.owner == wide owner) = true
    · rw [if_pos hr]
      rw [Bool.and_eq_true, beq_iff_eq, beq_iff_eq] at hr
      exact Or.inr ⟨hr.2, _, rfl⟩
    · rw [if_neg hr]
      exact Or.inl rfl

theorem Repositioned.identities {owner : UserId} {rows rows' : List DashboardRow}
    (h : Repositioned owner rows rows') : rows'.map (·.identity) = rows.map (·.identity) := by
  obtain ⟨f, rfl, hf⟩ := h
  rw [List.map_map]
  refine List.map_congr_left fun r _ => ?_
  rw [Function.comp_apply]
  rcases hf r with hr | ⟨-, order, hr⟩ <;> rw [hr]
  rfl

/-- The rows of another owner are the same, in the same order. -/
theorem Repositioned.filter_other {owner : UserId} {rows rows' : List DashboardRow} {o : Int}
    (h : Repositioned owner rows rows') (ho : o ≠ wide owner) :
    rows'.filter (·.owner == o) = rows.filter (·.owner == o) := by
  obtain ⟨f, rfl, hf⟩ := h
  have howner : ∀ r, (f r).owner = r.owner := by
    intro r
    rcases hf r with hr | ⟨-, order, hr⟩ <;> rw [hr]
  have hpred : (fun r : DashboardRow => r.owner == o) ∘ f = (·.owner == o) := by
    funext r
    rw [Function.comp_apply, howner]
  rw [List.filter_map, hpred]
  refine (List.map_congr_left fun r hr => ?_).trans (List.map_id _)
  have hro : r.owner = o := by simpa using (List.mem_filter.mp hr).2
  rcases hf r with h | ⟨h, -⟩
  · exact h
  · exact absurd (hro.symm.trans h) ho

/-! ## Uses -/

theorem RecentRow.isForAny_singleton (r : RecentRow) (owner : UserId) (key : String) :
    r.isForAny owner [key] = r.isFor (wide owner) (.text key) := by
  simp [isForAny]

theorem RecentRow.isForAny_mono {r : RecentRow} {owner : UserId} {keys keys' : List String}
    (hkeys : ∀ key ∈ keys, key ∈ keys') (h : r.isForAny owner keys = true) :
    r.isForAny owner keys' = true := by
  unfold isForAny at h ⊢
  obtain ⟨key, hkey, hr⟩ := List.any_eq_true.mp h
  exact List.any_eq_true.mpr ⟨key, hkeys key hkey, hr⟩

theorem RecentRow.isForAny_owner {r : RecentRow} {owner : UserId} {keys : List String}
    (h : r.isForAny owner keys = true) : r.owner = wide owner := by
  obtain ⟨key, -, hr⟩ := List.any_eq_true.mp h
  exact (RecentRow.isFor_iff.mp hr).1

theorem Recorded.refl (owner : UserId) (keys : List String) (moment : Time.Instant)
    (t : Tables) : Recorded owner keys moment t t where
  ledger := rfl
  present := rfl
  others := rfl
  moments := fun _ hr _ => Or.inl hr
  kept := fun r hr => ⟨r, hr, rfl⟩
  once := fun _ _ => Nat.le_max_right _ _

theorem filter_not_of_imp {ρ : Type} {p q : ρ → Bool} (hpq : ∀ r, p r = true → q r = true)
    (rows : List ρ) : (rows.filter (!p ·)).filter (!q ·) = rows.filter (!q ·) := by
  rw [List.filter_filter]
  refine List.filter_congr fun r _ => ?_
  have := hpq r
  cases hp : p r <;> cases hq : q r <;> simp_all

theorem Recorded.mono {owner : UserId} {keys keys' : List String} {moment : Time.Instant}
    {t t' : Tables} (hkeys : ∀ key ∈ keys, key ∈ keys') (h : Recorded owner keys moment t t') :
    Recorded owner keys' moment t t' := by
  have hmono : ∀ r : RecentRow, r.isForAny owner keys = true → r.isForAny owner keys' = true :=
    fun _ => RecentRow.isForAny_mono hkeys
  refine ⟨h.ledger, h.present, ?_, fun r hr _ => ?_, h.kept, h.once⟩
  · have hothers := congrArg (List.filter (!·.isForAny owner keys')) h.others
    rw [filter_not_of_imp hmono, filter_not_of_imp hmono] at hothers
    exact hothers
  · by_cases hany : r.isForAny owner keys = true
    · exact h.moments r hr hany
    · have hmem : r ∈ t'.uses.filter (!·.isForAny owner keys) :=
        List.mem_filter.mpr ⟨hr, by simpa using hany⟩
      rw [h.others] at hmem
      exact Or.inl (List.mem_filter.mp hmem).1

theorem Recorded.trans {owner : UserId} {keys : List String} {moment : Time.Instant}
    {t t1 t2 : Tables} (h1 : Recorded owner keys moment t t1)
    (h2 : Recorded owner keys moment t1 t2) : Recorded owner keys moment t t2 where
  ledger := by
    rw [h2.ledger, h1.ledger]
  present := h2.present.trans h1.present
  others := h2.others.trans h1.others
  moments := by
    intro r hr hany
    rcases h2.moments r hr hany with hr1 | hmoment
    · exact h1.moments r hr1 hany
    · exact Or.inr hmoment
  kept := by
    intro r hr
    obtain ⟨r1, hr1, hslot1⟩ := h1.kept r hr
    obtain ⟨r2, hr2, hslot2⟩ := h2.kept r1 hr1
    exact ⟨r2, hr2, hslot2.trans hslot1⟩
  once := by
    intro o key
    have hone := h1.once o key
    have htwo := h2.once o key
    omega

/-- A row that is put beside rows without its slot is the only one there. -/
theorem countP_append_new {rows all : List RecentRow} {row : RecentRow} {o : Int} {key : Cell}
    (hnew : ∀ r ∈ rows, r.isFor row.owner row.key = false) :
    (rows ++ [row.numbered all]).countP (·.isFor o key) ≤
      max 1 (rows.countP (·.isFor o key)) := by
  rw [List.countP_append, List.countP_singleton, RecentRow.isFor_numbered]
  by_cases hrow : row.isFor o key = true
  · obtain ⟨rfl, rfl⟩ := RecentRow.isFor_iff.mp hrow
    have hzero : rows.countP (·.isFor row.owner row.key) = 0 := by
      rw [List.countP_eq_zero]
      intro r hr
      simp [hnew r hr]
    rw [hzero, if_pos hrow]
    omega
  · rw [if_neg hrow]
    omega

/-- A use has been put among rows. -/
structure PutAmong (row : RecentRow) (rows rows' : List RecentRow) : Prop where
  /-- The rows under other keys are the same. -/
  others : rows'.filter (!·.isFor row.owner row.key) = rows.filter (!·.isFor row.owner row.key)
  /-- A row under the key was there before, or has the moment of the use. -/
  moments : ∀ r ∈ rows', r.isFor row.owner row.key = true →
    r ∈ rows ∨ r.lastUsed = row.lastUsed
  /-- No key is lost. -/
  kept : ∀ r ∈ rows, ∃ r' ∈ rows', r'.slot = r.slot
  /-- No second row comes under a key. -/
  once : ∀ o key, rows'.countP (·.isFor o key) ≤ max 1 (rows.countP (·.isFor o key))

section PutAmong

variable {row : RecentRow} {rows : List RecentRow}

theorem RecentRow.isFor_self (all : List RecentRow) :
    (row.numbered all).isFor row.owner row.key = true := RecentRow.isFor_iff.mpr ⟨rfl, rfl⟩

theorem putAmong_added (hnew : ∀ r ∈ rows, r.isFor row.owner row.key = false) :
    PutAmong row rows (rows ++ [row.numbered rows]) := by
  refine ⟨?_, fun r hr _ => ?_, fun r hr => ?_, fun o k => countP_append_new hnew⟩
  · rw [List.filter_append]
    simp [RecentRow.isFor_self]
  · rcases List.mem_append.mp hr with hr | hr
    · exact Or.inl hr
    · rw [List.mem_singleton.mp hr]
      exact Or.inr rfl
  · exact ⟨r, List.mem_append_left _ hr, rfl⟩

theorem putAmong_replaced :
    PutAmong row rows (rows.filter (!·.isFor row.owner row.key) ++ [row.numbered rows]) := by
  have hgone : ∀ r ∈ rows.filter (!·.isFor row.owner row.key),
      r.isFor row.owner row.key = false := by
    intro r hr
    simpa using (List.mem_filter.mp hr).2
  refine ⟨?_, fun r hr hany => ?_, fun r hr => ?_, fun o k => ?_⟩
  · rw [List.filter_append, List.filter_filter]
    simp [RecentRow.isFor_self]
  · rcases List.mem_append.mp hr with hr | hr
    · rw [hgone r hr] at hany
      cases hany
    · rw [List.mem_singleton.mp hr]
      exact Or.inr rfl
  · by_cases hany : r.isFor row.owner row.key = true
    · exact ⟨row.numbered rows, by simp, (RecentRow.isFor_iff_slot.mp hany).symm⟩
    · exact ⟨r, List.mem_append_left _ (List.mem_filter.mpr ⟨hr, by simpa using hany⟩), rfl⟩
  · refine Nat.le_trans (countP_append_new hgone) ?_
    have hless : (rows.filter (!·.isFor row.owner row.key)).countP (·.isFor o k) ≤
        rows.countP (·.isFor o k) := List.filter_sublist.countP_le
    omega

theorem putAmong_retimed : PutAmong row rows (retime row rows) := by
  have hsame : ∀ (r : RecentRow) o k, (if r.isFor row.owner row.key then
      { r with lastUsed := row.lastUsed } else r).isFor o k = r.isFor o k := by
    intro r o k
    split <;> rfl
  unfold retime
  refine ⟨?_, fun r hr hany => ?_, fun r hr => ?_, fun o k => ?_⟩
  · have hpart : (rows.map fun r => if r.isFor row.owner row.key then
        { r with lastUsed := row.lastUsed } else r).filter (!·.isFor row.owner row.key) =
        (rows.filter (!·.isFor row.owner row.key)).map fun r => if r.isFor row.owner row.key then
          { r with lastUsed := row.lastUsed } else r := by
      rw [List.filter_map]
      congr 1
      refine List.filter_congr fun r _ => ?_
      rw [Function.comp_apply, hsame]
    rw [hpart]
    refine (List.map_congr_left fun r hr => ?_).trans (List.map_id _)
    have hother := (List.mem_filter.mp hr).2
    rw [if_neg (by simpa using hother)]
    rfl
  · obtain ⟨r0, -, rfl⟩ := List.mem_map.mp hr
    rw [hsame] at hany
    rw [if_pos hany]
    exact Or.inr rfl
  · refine ⟨_, List.mem_map_of_mem hr, ?_⟩
    split <;> rfl
  · rw [List.countP_map]
    refine Nat.le_trans (Nat.le_of_eq (List.countP_congr fun r _ => ?_)) (Nat.le_max_right _ _)
    rw [Function.comp_apply, hsame]

end PutAmong

/-- Where a use is put, it is recorded under its key. -/
theorem UsePut.recorded {owner : UserId} {key : String} {moment : Time.Instant} {t t' : Tables}
    (h : UsePut (.ofUse owner key moment) t t') : Recorded owner [key] moment t t' := by
  have hrecorded : ∀ rows rows', t.recents = some rows →
      PutAmong (.ofUse owner key moment) rows rows' →
      Recorded owner [key] moment t { t with recents := some rows' } := by
    intro rows rows' hrows hput
    refine ⟨rfl, by rw [hrows]; rfl, ?_, ?_, ?_, ?_⟩
      <;> simp only [Tables.uses, hrows, Option.getD_some, RecentRow.isForAny_singleton]
    · exact hput.others
    · exact hput.moments
    · exact hput.kept
    · exact hput.once
  cases h with
  | replaced hrows => exact hrecorded _ _ hrows putAmong_replaced
  | retimed hrows => exact hrecorded _ _ hrows putAmong_retimed
  | added hrows _ hnone =>
    refine hrecorded _ _ hrows (putAmong_added fun r hr => ?_)
    simpa using List.find?_eq_none.mp hnone r hr

/-- A batch of uses is recorded under its keys, key by key. -/
theorem UsesPut.recorded {owner : UserId} {moment : Time.Instant} {keys : List String}
    {us : List Unrecorded} {t t' : Tables} (h : UsesPut owner moment keys us t t') :
    Recorded owner keys moment t t' := by
  induction h with
  | done t => exact .refl owner [] moment t
  | put hput _ ih =>
    refine (hput.recorded.mono ?_).trans (ih.mono ?_)
    · intro k hk
      rw [List.mem_singleton.mp hk]
      exact List.mem_cons_self
    · intro k hk
      exact List.mem_cons_of_mem _ hk
  | skip _ ih =>
    refine ih.mono ?_
    intro k hk
    exact List.mem_cons_of_mem _ hk

/-- The rows of another user are the same, in the same order. -/
theorem Recorded.filter_other {owner : UserId} {keys : List String} {moment : Time.Instant}
    {t t' : Tables} {o : Int} (h : Recorded owner keys moment t t') (ho : o ≠ wide owner) :
    t'.uses.filter (·.owner == o) = t.uses.filter (·.owner == o) := by
  have hpart : ∀ rows : List RecentRow,
      (rows.filter (!·.isForAny owner keys)).filter (·.owner == o) =
        rows.filter (·.owner == o) := by
    intro rows
    rw [List.filter_filter]
    refine List.filter_congr fun r _ => ?_
    by_cases hr : r.owner = o
    · have hany : r.isForAny owner keys = false := by
        rw [← Bool.not_eq_true]
        intro hany
        exact ho (hr.symm.trans (RecentRow.isForAny_owner hany))
      simp [hany]
    · simp [hr]
  rw [← hpart, h.others, hpart]

/-! ## Every request keeps to its footprint -/

/-- What a granted request does lies within its footprint. -/
theorem Effect.footprint {t t' : Tables} {r : Request} {a : Reply} (h : Effect t r a t') :
    r.Footprint t t' := by
  unfold Request.Footprint
  cases h with
  | question => exact Or.inl rfl
  | createUser hblank hrows hn hname =>
    exact Or.inr ⟨_, _, hrows, rfl, nextNumber_ne hn, rfl⟩
  | removeUser hrows hid =>
    refine Or.inr ?_
    rw [Request.touches, hrows]
    rfl
  | createDashboard hblank hrows husers horder hn howner =>
    exact Or.inr ⟨_, _, hrows, rfl, rfl, nextNumber_ne hn, rfl⟩
  | moved hrows hids hswap => exact Or.inr ⟨_, _, hrows, placed_repositioned _ _ _ _, rfl⟩
  | unmoved => exact Or.inl rfl
  | reindexDashboards hrows hids =>
    exact Or.inr ⟨_, _, hrows, placed_repositioned _ _ _ _, rfl⟩
  | removeDashboard hrows hid hleft hids =>
    subst hleft
    exact Or.inr ⟨_, _, hrows, placed_repositioned _ _ _ _, rfl⟩
  | createTag hblank hrows husers hkey howner => exact Or.inr ⟨_, _, hrows, rfl, rfl, hkey, rfl⟩
  | removeTag hrows hrecents hkey =>
    refine Or.inr ?_
    rw [Request.touches, hrows, hrecents]
    rfl
  | recordUse hput => exact Or.inr hput.recorded
  | recordUses hputs => exact Or.inr hputs.recorded

/-! ## What others have -/

/-- What a user has: its own row, and the rows that belong to it, in the order of the tables. -/
@[ext]
structure Share where
  /-- The user. -/
  user : Option (List UserRow)
  /-- Its dashboards. -/
  dashboards : Option (List DashboardRow)
  /-- Its tag definitions. -/
  tags : Option (List TagRow)
  /-- Its recent uses. -/
  recents : Option (List RecentRow)
  deriving DecidableEq

/-- What a user has in the tables. -/
def Tables.share (t : Tables) (o : Int) : Share where
  user := t.users.map (·.filter (·.id == o))
  dashboards := t.dashboards.map (·.filter (·.owner == o))
  tags := t.tags.map (·.filter (·.owner == o))
  recents := t.recents.map (·.filter (·.owner == o))

/-- The user that a request is about. A user that is still to be made has no number. -/
def Request.owner? : Request → Option UserId
  | createUser _ => none
  | findUser id => some id
  | removeUser id => some id
  | createDashboard draft => some draft.owner
  | findDashboard owner _ => some owner
  | listDashboards owner => some owner
  | moveDashboard owner _ _ => some owner
  | reindexDashboards owner => some owner
  | removeDashboard owner _ => some owner
  | createTag tag => some tag.owner
  | findTag owner _ => some owner
  | listTags owner => some owner
  | rankTags owner => some owner
  | removeTag owner _ => some owner
  | recordUse _ owner _ _ => some owner
  | recordUses _ owner _ _ => some owner
  | findUse owner _ => some owner

/-- Rows that go for another user's sake are none of one's own. -/
theorem filter_own_of_others {ρ : Type} {goes p : ρ → Bool}
    (h : ∀ r, p r = true → goes r = false) (rows : List ρ) :
    (rows.filter (!goes ·)).filter p = rows.filter p := by
  rw [List.filter_filter]
  refine List.filter_congr fun r _ => ?_
  by_cases hr : p r = true
  · simp [hr, h r hr]
  · simp [hr]

theorem map_filter_own_of_others {ρ : Type} {goes p : ρ → Bool}
    (h : ∀ r, p r = true → goes r = false) (rows : Option (List ρ)) :
    (rows.map (·.filter (!goes ·))).map (·.filter p) = rows.map (·.filter p) := by
  rw [Option.map_map]
  exact Option.map_congr fun rows _ => filter_own_of_others h rows

/-- The row that comes for another user is none of one's own. -/
theorem filter_own_append {ρ : Type} {p : ρ → Bool} {row : ρ} (h : p row = false)
    (rows : List ρ) : (rows ++ [row]).filter p = rows.filter p := by
  rw [List.filter_append]
  simp [h]

theorem Recorded.recents_other {owner : UserId} {keys : List String} {moment : Time.Instant}
    {t t' : Tables} {o : Int} (h : Recorded owner keys moment t t') (ho : o ≠ wide owner) :
    t'.recents.map (·.filter (·.owner == o)) = t.recents.map (·.filter (·.owner == o)) := by
  have hfilter := h.filter_other ho
  have hpresent := h.present
  unfold Tables.uses at hfilter
  cases ht : t.recents <;> cases ht' : t'.recents <;> simp_all

/-- Whatever a request touches, it leaves alone what other users have. -/
theorem Request.Footprint.share {r : Request} {t t' : Tables} {owner : UserId} {o : Int}
    (h : r.Footprint t t') (hr : r.owner? = some owner) (ho : o ≠ wide owner) :
    t'.share o = t.share o := by
  rcases h with rfl | h
  · rfl
  have hne : wide owner ≠ o := fun he => ho he.symm
  cases r with
  | createUser => cases hr
  | removeUser id =>
    cases hr
    have hid : ∀ n : Int, (n == o) = true → (n == wide owner) = false := by
      intro n hn
      rw [beq_iff_eq.mp hn]
      exact beq_eq_false_iff_ne.mpr ho
    rw [show t' = _ from h]
    refine Share.ext ?_ ?_ ?_ ?_
    · exact map_filter_own_of_others (fun r : UserRow => hid r.id) t.users
    · exact map_filter_own_of_others (fun r : DashboardRow => hid r.owner) t.dashboards
    · exact map_filter_own_of_others (fun r : TagRow => hid r.owner) t.tags
    · exact map_filter_own_of_others (fun r : RecentRow => hid r.owner) t.recents
  | createDashboard draft =>
    cases hr
    obtain ⟨rows, row, hrows, howner, -, -, rfl⟩ := h
    have hrow : (row.owner == o) = false := by
      rw [howner]
      exact beq_eq_false_iff_ne.mpr hne
    have hadded := filter_own_append (p := fun r : DashboardRow => r.owner == o) hrow rows
    simp only [Tables.share, hrows, Option.map_some, hadded]
  | moveDashboard =>
    cases hr
    obtain ⟨rows, rows', hrows, hmoved, rfl⟩ := h
    simp only [Tables.share, hrows, Option.map_some, hmoved.filter_other ho]
  | reindexDashboards =>
    cases hr
    obtain ⟨rows, rows', hrows, hmoved, rfl⟩ := h
    simp only [Tables.share, hrows, Option.map_some, hmoved.filter_other ho]
  | removeDashboard _ id =>
    cases hr
    obtain ⟨rows, rows', hrows, hmoved, rfl⟩ := h
    have hgoes : ∀ r : DashboardRow, (r.owner == o) = true →
        (r.id == wide id && r.owner == wide owner) = false := by
      intro r hr
      rw [beq_iff_eq.mp hr]
      simp [ho]
    simp only [Tables.share, hrows, Option.map_some, hmoved.filter_other ho,
      filter_own_of_others hgoes]
  | createTag tag =>
    cases hr
    obtain ⟨rows, row, hrows, howner, -, -, rfl⟩ := h
    have hrow : (row.owner == o) = false := by
      rw [howner]
      exact beq_eq_false_iff_ne.mpr hne
    have hadded := filter_own_append (p := fun r : TagRow => r.owner == o) hrow rows
    simp only [Tables.share, hrows, Option.map_some, hadded]
  | removeTag _ key =>
    cases hr
    have htag : ∀ r : TagRow, (r.owner == o) = true →
        (r.owner == wide owner && r.key == .text key) = false := by
      intro r hr
      rw [beq_iff_eq.mp hr]
      simp [ho]
    have huse : ∀ r : RecentRow, (r.owner == o) = true →
        r.isFor (wide owner) (.text key) = false := by
      intro r hr
      rw [RecentRow.isFor, beq_iff_eq.mp hr]
      simp [ho]
    rw [show t' = _ from h]
    refine Share.ext rfl rfl ?_ ?_
    · exact map_filter_own_of_others htag t.tags
    · exact map_filter_own_of_others huse t.recents
  | recordUse =>
    cases hr
    have hrec := h.recents_other ho
    rw [show t' = _ from h.ledger]
    simp only [Tables.share, hrec]
  | recordUses =>
    cases hr
    have hrec := h.recents_other ho
    rw [show t' = _ from h.ledger]
    simp only [Tables.share, hrec]
  | _ => exact h.elim

/-- A user that is there loses and gains nothing when another one is made. -/
theorem Request.Footprint.share_of_createUser {name : String} {t t' : Tables} {o : Int}
    (h : (Request.createUser name).Footprint t t') :
    t'.share o = t.share o ∨ ¬ t.HasUser o ∧ t'.HasUser o := by
  rcases h with rfl | ⟨rows, row, hrows, -, hid, rfl⟩
  · exact Or.inl rfl
  by_cases hrow : row.id = o
  · right
    subst hrow
    unfold Tables.HasUser
    rw [hrows]
    refine ⟨?_, row, by simp, rfl⟩
    rintro ⟨u, hu, hn⟩
    exact hid u hu hn
  · left
    have hnot : (row.id == o) = false := beq_eq_false_iff_ne.mpr hrow
    have hadded := filter_own_append (p := fun r : UserRow => r.id == o) hnot rows
    simp only [Tables.share, hrows, Option.map_some, hadded]

/-! ## What dashboards are -/

/-- No dashboard changes its number, its owner or its name: some go, or a new one comes. -/
theorem Request.Footprint.identities {r : Request} {t t' : Tables} (h : r.Footprint t t') :
    t'.identities.Sublist t.identities ∨ ∃ draft number, r = .createDashboard draft ∧
      t'.identities = t.identities ++ [(number, wide draft.owner, .text draft.name)] := by
  have hsame : t'.dashboards = t.dashboards → t'.identities.Sublist t.identities := by
    intro heq
    have hident : t'.identities = t.identities := by
      unfold Tables.identities
      rw [heq]
    exact hident ▸ .refl _
  rcases h with rfl | h
  · exact Or.inl (hsame rfl)
  cases r with
  | createUser =>
    obtain ⟨rows, row, -, -, -, rfl⟩ := h
    exact Or.inl (hsame rfl)
  | removeUser id =>
    left
    rw [show t' = _ from h]
    unfold Tables.identities Tables.withoutBelongings
    cases t.dashboards with
    | none => exact .refl _
    | some rows => exact List.filter_sublist.map _
  | createDashboard draft =>
    obtain ⟨rows, row, hrows, howner, hname, -, rfl⟩ := h
    refine Or.inr ⟨draft, row.id, rfl, ?_⟩
    simp only [Tables.identities, hrows, Option.getD_some, List.map_append, List.map_singleton,
      DashboardRow.identity, howner, hname]
  | moveDashboard =>
    obtain ⟨rows, rows', hrows, hmoved, rfl⟩ := h
    left
    simp only [Tables.identities, hrows, Option.getD_some, hmoved.identities]
    exact .refl _
  | reindexDashboards =>
    obtain ⟨rows, rows', hrows, hmoved, rfl⟩ := h
    left
    simp only [Tables.identities, hrows, Option.getD_some, hmoved.identities]
    exact .refl _
  | removeDashboard =>
    obtain ⟨rows, rows', hrows, hmoved, rfl⟩ := h
    left
    simp only [Tables.identities, hrows, Option.getD_some, hmoved.identities]
    exact List.filter_sublist.map _
  | createTag =>
    obtain ⟨rows, row, -, -, -, -, rfl⟩ := h
    exact Or.inl (hsame rfl)
  | removeTag =>
    refine Or.inl (hsame ?_)
    rw [show t' = _ from h]
  | recordUse =>
    refine Or.inl (hsame ?_)
    rw [h.ledger]
  | recordUses =>
    refine Or.inl (hsame ?_)
    rw [h.ledger]
  | _ => exact h.elim

/-- Whatever the tables hold, whatever surrounds the request and whatever comes of it: it keeps to
its footprint, it rewrites no dashboard's number, owner or name, and it leaves alone every user but
the one that it is about, or that it has made. -/
theorem writes_keep_to_footprint (s : Setting) (own : Dialect.Strategy) (r : Request)
    (c : Connection) :
    r.Footprint c.tables (r.run s own c).2.tables ∧
      ((r.run s own c).2.tables.identities.Sublist c.tables.identities ∨
        ∃ draft number, r = .createDashboard draft ∧
          (r.run s own c).2.tables.identities =
            c.tables.identities ++ [(number, wide draft.owner, .text draft.name)]) ∧
      ∀ o, r.owner?.map wide ≠ some o →
        (r.run s own c).2.tables.share o = c.tables.share o ∨
          (∃ name, r = .createUser name) ∧
            ¬ c.tables.HasUser o ∧ (r.run s own c).2.tables.HasUser o := by
  have hprint : r.Footprint c.tables (r.run s own c).2.tables := by
    rcases run_cases s own r c with ⟨a, -, heff⟩ | ⟨-, hsame⟩
    · exact heff.footprint
    · exact Or.inl hsame
  refine ⟨hprint, hprint.identities, fun o ho => ?_⟩
  cases hr : r.owner? with
  | some owner =>
    rw [hr, Option.map_some] at ho
    exact Or.inl (hprint.share hr fun he => ho (congrArg some he.symm))
  | none =>
    cases r with
    | createUser name =>
      rcases hprint.share_of_createUser (o := o) with hsame | hmade
      · exact Or.inl hsame
      · exact Or.inr ⟨⟨name, rfl⟩, hmade⟩
    | _ => cases hr

end Pinboard.Store
