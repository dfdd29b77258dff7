import Pinboard.Proofs.Effect

/-!
# Uses

What the ledger of recent uses holds for a key, and what a granted request makes of that. A ledger
is `Keyed` if no key comes twice in it and every use is that of a user that is there, as the keys of
the tables demand. How a use is put then makes no difference to what the ledger holds.
-/

namespace Pinboard.Store

/-! ## What the ledger holds -/

/-- What a use is for. -/
def RecentRow.slot (r : RecentRow) : Int × Cell := (r.owner, r.key)

theorem RecentRow.isFor_iff_slot {r row : RecentRow} :
    r.isFor row.owner row.key = true ↔ r.slot = row.slot := by
  rw [RecentRow.isFor_iff, RecentRow.slot, RecentRow.slot, Prod.mk.injEq]

namespace Tables

/-- The uses in the ledger. -/
def uses (t : Tables) : List RecentRow := t.recents.getD []

/-- Is there a user with a number? -/
def HasUser (t : Tables) (owner : Int) : Prop := ∃ u ∈ t.users.getD [], u.id = owner

instance (t : Tables) (owner : Int) : Decidable (t.HasUser owner) :=
  inferInstanceAs (Decidable (∃ u ∈ t.users.getD [], u.id = owner))

/-- The moment that the ledger holds for a key of a user, if it holds one. -/
def useOf? (t : Tables) (owner : Int) (key : Cell) : Option Cell :=
  (t.uses.find? (·.isFor owner key)).map (·.lastUsed)

/-- No key comes twice in the ledger, and every use is that of a user. -/
structure Keyed (t : Tables) : Prop where
  /-- Each key of a user comes once. -/
  slots : (t.uses.map (·.slot)).Nodup
  /-- The user of each use is there. -/
  owners : ∀ r ∈ t.uses, t.HasUser r.owner

end Tables

/-! ## Rows that come and go -/

theorem RecentRow.isFor_numbered (row : RecentRow) (rows : List RecentRow) (owner : Int)
    (key : Cell) : (row.numbered rows).isFor owner key = row.isFor owner key := rfl

theorem isFor_of_find? {rows : List RecentRow} {owner : Int} {key : Cell} {r : RecentRow}
    (h : rows.find? (·.isFor owner key) = some r) : r.isFor owner key = true := by
  have hfor := List.find?_some h
  simpa using hfor

theorem Tables.uses_eq {t : Tables} {rows : List RecentRow} (h : t.recents = some rows) :
    t.uses = rows := by
  unfold uses
  rw [h]
  rfl

/-- The ledger holds nothing for a user that is not there. -/
theorem Tables.Keyed.useOf?_eq_none {t : Tables} (hk : t.Keyed) {owner : Int}
    (howner : ¬ t.HasUser owner) (key : Cell) : t.useOf? owner key = none := by
  unfold useOf?
  rw [Option.map_eq_none_iff, List.find?_eq_none]
  intro r hr hfor
  rw [← (RecentRow.isFor_iff.mp hfor).1] at howner
  exact howner (hk.owners r hr)

/-- Of the uses of one key, either all go or none. -/
theorem find?_without {rows : List RecentRow} {goes : RecentRow → Bool} {owner : Int} {key : Cell}
    {gone : Prop} [Decidable gone]
    (hgone : ∀ r : RecentRow, r.isFor owner key = true → (goes r = true ↔ gone)) :
    (rows.filter (!goes ·)).find? (·.isFor owner key) =
      if gone then none else rows.find? (·.isFor owner key) := by
  rw [List.find?_filter]
  by_cases hg : gone
  · rw [if_pos hg, List.find?_eq_none]
    intro r _ hr
    simp only [decide_eq_true_eq, Bool.not_eq_true'] at hr
    have hgoes := (hgone r hr.2).mpr hg
    rw [hr.1] at hgoes
    cases hgoes
  · rw [if_neg hg]
    congr 1
    funext r
    by_cases hr : r.isFor owner key = true
    · have hstay : goes r = false := by
        rw [← Bool.not_eq_true]
        exact fun h => hg ((hgone r hr).mp h)
      simp [hstay, hr]
    · simp [hr]

theorem find?_retime (row : RecentRow) (rows : List RecentRow) (owner : Int) (key : Cell) :
    (retime row rows).find? (·.isFor owner key) =
      (rows.find? (·.isFor owner key)).map fun r =>
        if r.isFor row.owner row.key then { r with lastUsed := row.lastUsed } else r := by
  rw [retime, List.find?_map]
  congr 2
  funext r
  by_cases hr : r.isFor row.owner row.key = true
  · simp only [Function.comp_apply, if_pos hr]
    rfl
  · simp only [Function.comp_apply, if_neg hr]

/-- After a use was put, the ledger holds its moment for its key, and what it held for every
other. -/
theorem UsePut.useOf? {row : RecentRow} {t t' : Tables} (h : UsePut row t t') (owner : Int)
    (key : Cell) : t'.useOf? owner key =
      if row.isFor owner key then some row.lastUsed else t.useOf? owner key := by
  have hsame : ∀ r : RecentRow, r.isFor owner key = true →
      (r.isFor row.owner row.key = true ↔ row.isFor owner key = true) := by
    intro r hr
    obtain ⟨rfl, rfl⟩ := RecentRow.isFor_iff.mp hr
    rw [RecentRow.isFor_iff, RecentRow.isFor_iff, eq_comm, eq_comm (a := r.key)]
  cases h with
  | replaced hrows husers howner =>
    simp only [Tables.useOf?, Tables.uses, hrows, Option.getD_some, List.find?_append,
      find?_without hsame, List.find?_singleton, RecentRow.isFor_numbered]
    by_cases hrow : row.isFor owner key = true
    · simp [hrow, RecentRow.numbered]
    · simp [hrow]
  | retimed hrows hold =>
    simp only [Tables.useOf?, Tables.uses, hrows, Option.getD_some, find?_retime, Option.map_map]
    by_cases hrow : row.isFor owner key = true
    · obtain ⟨rfl, rfl⟩ := RecentRow.isFor_iff.mp hrow
      have hfound := List.find?_some hold
      simp only [hold, Option.map_some, Function.comp_apply, hfound, hrow, if_true]
    · rw [if_neg hrow]
      refine Option.map_congr fun r hr => ?_
      have hother := mt (hsame r (isFor_of_find? hr)).mp hrow
      simp only [Function.comp_apply, if_neg hother]
  | added hrows husers hnone howner =>
    simp only [Tables.useOf?, Tables.uses, hrows, Option.getD_some, List.find?_append,
      List.find?_singleton, RecentRow.isFor_numbered]
    by_cases hrow : row.isFor owner key = true
    · obtain ⟨rfl, rfl⟩ := RecentRow.isFor_iff.mp hrow
      simp [hrow, hnone, RecentRow.numbered]
    · simp [hrow]

/-- The user of a use that was put is there. -/
theorem UsePut.hasUser {row : RecentRow} {t t' : Tables} (h : UsePut row t t') (hk : t.Keyed) :
    t.HasUser row.owner := by
  cases h with
  | replaced hrows husers howner =>
    unfold Tables.HasUser
    rw [husers]
    exact howner
  | retimed hrows hold =>
    rename_i rows old
    have hmem : old ∈ t.uses := by
      unfold Tables.uses
      rw [hrows]
      exact List.mem_of_find?_eq_some hold
    rw [← (RecentRow.isFor_iff.mp (isFor_of_find? hold)).1]
    exact hk.owners old hmem
  | added hrows husers hnone howner =>
    unfold Tables.HasUser
    rw [husers]
    exact howner

/-- A use for which there is no other yet comes beside the others. -/
theorem slots_append {rows all : List RecentRow} {row : RecentRow}
    (h : (rows.map (·.slot)).Nodup) (hnew : ∀ r ∈ rows, r.isFor row.owner row.key = false) :
    ((rows ++ [row.numbered all]).map (·.slot)).Nodup := by
  refine nodup_map_append h fun r hr he => ?_
  have hfor : r.isFor row.owner row.key = true := RecentRow.isFor_iff_slot.mpr he
  rw [hnew r hr] at hfor
  cases hfor

theorem slots_retime (row : RecentRow) (rows : List RecentRow) :
    (retime row rows).map (·.slot) = rows.map (·.slot) := by
  rw [retime, List.map_map]
  refine List.map_congr_left fun r _ => ?_
  simp only [Function.comp_apply]
  split <;> rfl

theorem UsePut.keyed {row : RecentRow} {t t' : Tables} (h : UsePut row t t') (hk : t.Keyed) :
    t'.Keyed := by
  have huser := h.hasUser hk
  have hslots := hk.slots
  have howners := hk.owners
  unfold Tables.uses at hslots howners
  cases h with
  | replaced hrows husers howner =>
    rw [hrows, Option.getD_some] at hslots howners
    refine ⟨slots_append (hslots.sublist (List.filter_sublist.map _)) ?_, ?_⟩
    · intro r hr
      simpa using (List.mem_filter.mp hr).2
    · intro r hr
      rcases List.mem_append.mp hr with hr | hr
      · exact howners r (List.mem_filter.mp hr).1
      · rw [List.mem_singleton.mp hr]
        exact huser
  | retimed hrows hold =>
    rw [hrows, Option.getD_some] at hslots howners
    refine ⟨?_, ?_⟩
    · show ((retime row _).map (·.slot)).Nodup
      rw [slots_retime]
      exact hslots
    · intro r hr
      obtain ⟨r', hr', rfl⟩ := List.mem_map.mp hr
      have howner := howners r' hr'
      split
      · exact howner
      · exact howner
  | added hrows husers hnone howner =>
    rw [hrows, Option.getD_some] at hslots howners
    refine ⟨slots_append hslots ?_, ?_⟩
    · intro r hr
      simpa using List.find?_eq_none.mp hnone r hr
    · intro r hr
      rcases List.mem_append.mp hr with hr | hr
      · exact howners r hr
      · rw [List.mem_singleton.mp hr]
        exact huser

theorem UsesPut.keyed {owner : UserId} {moment : Time.Instant} {keys : List String}
    {us : List Unrecorded} {t t' : Tables} (h : UsesPut owner moment keys us t t')
    (hk : t.Keyed) : t'.Keyed := by
  induction h with
  | done t => exact hk
  | put h _ ih => exact ih (h.keyed hk)
  | skip _ ih => exact ih hk

theorem Tables.withoutBelongings_uses (t : Tables) (gone : Int → Bool) :
    (t.withoutBelongings gone).uses = t.uses.filter (!gone ·.owner) := by
  unfold uses withoutBelongings
  cases t.recents <;> rfl

/-- Whatever a granted request does, the ledger stays keyed. -/
theorem Effect.keyed {t t' : Tables} {r : Request} {a : Reply} (h : Effect t r a t')
    (hk : t.Keyed) : t'.Keyed := by
  have hslots := hk.slots
  have howners := hk.owners
  cases h with
  | question => exact hk
  | createUser hblank hrows hn hname =>
    refine ⟨hslots, fun r hr => ?_⟩
    obtain ⟨u, hu, hid⟩ := howners r hr
    rw [hrows] at hu
    exact ⟨u, List.mem_append_left _ hu, hid⟩
  | removeUser hrows hid =>
    rename_i id users
    have huses := t.withoutBelongings_uses (· == wide id)
    refine ⟨?_, ?_⟩
    · show ((t.withoutBelongings (· == wide id)).uses.map (·.slot)).Nodup
      rw [huses]
      exact hslots.sublist (List.filter_sublist.map _)
    · show ∀ r ∈ (t.withoutBelongings (· == wide id)).uses, _
      rw [huses]
      intro r hr
      obtain ⟨hr, hstays⟩ := List.mem_filter.mp hr
      obtain ⟨u, hu, huid⟩ := howners r hr
      rw [hrows] at hu
      refine ⟨u, List.mem_filter.mpr ⟨hu, ?_⟩, huid⟩
      rw [huid]
      exact hstays
  | createDashboard => exact ⟨hslots, howners⟩
  | moved => exact ⟨hslots, howners⟩
  | unmoved => exact hk
  | reindexDashboards => exact ⟨hslots, howners⟩
  | removeDashboard => exact ⟨hslots, howners⟩
  | createTag => exact ⟨hslots, howners⟩
  | removeTag hrows hrecents hkey =>
    simp only [Tables.uses, hrecents, Option.getD_some] at hslots howners
    exact ⟨hslots.sublist (List.filter_sublist.map _),
      fun r hr => howners r (List.mem_filter.mp hr).1⟩
  | recordUse h => exact h.keyed hk
  | recordUses h => exact h.keyed hk

/-! ## What a request does to the ledger -/

/-- Does a request change the ledger? -/
def Request.changesLedger : Request → Bool
  | removeUser _ => true
  | removeTag _ _ => true
  | recordUse _ _ _ _ => true
  | recordUses _ _ _ _ => true
  | _ => false

/-- The other requests leave the ledger alone. -/
theorem Effect.recents_eq {t t' : Tables} {r : Request} {a : Reply} (h : Effect t r a t')
    (hr : r.changesLedger = false) : t'.recents = t.recents := by
  cases h with
  | question => rfl
  | createUser => rfl
  | removeUser => cases hr
  | createDashboard => rfl
  | moved => rfl
  | unmoved => rfl
  | reindexDashboards => rfl
  | removeDashboard => rfl
  | createTag => rfl
  | removeTag => cases hr
  | recordUse => cases hr
  | recordUses => cases hr

theorem Effect.removeUser_useOf? {t t' : Tables} {id : UserId} {a : Reply}
    (h : Effect t (.removeUser id) a t') (owner : Int) (key : Cell) :
    t'.useOf? owner key = if owner = wide id then none else t.useOf? owner key := by
  cases h with
  | question hq => cases hq
  | removeUser hrows hid =>
    have hgone : ∀ r : RecentRow, r.isFor owner key = true →
        ((r.owner == wide id) = true ↔ owner = wide id) := by
      intro r hr
      rw [beq_iff_eq, (RecentRow.isFor_iff.mp hr).1]
    show ((t.withoutBelongings (· == wide id)).uses.find? (·.isFor owner key)).map (·.lastUsed) = _
    rw [Tables.withoutBelongings_uses, find?_without hgone]
    unfold Tables.useOf?
    split <;> rfl

theorem Effect.removeTag_useOf? {t t' : Tables} {o : UserId} {k : String} {a : Reply}
    (h : Effect t (.removeTag o k) a t') (owner : Int) (key : Cell) :
    t'.useOf? owner key =
      if owner = wide o ∧ key = .text k then none else t.useOf? owner key := by
  cases h with
  | question hq => cases hq
  | removeTag hrows hrecents hkey =>
    have hgone : ∀ r : RecentRow, r.isFor owner key = true →
        (r.isFor (wide o) (.text k) = true ↔ owner = wide o ∧ key = .text k) := by
      intro r hr
      obtain ⟨rfl, rfl⟩ := RecentRow.isFor_iff.mp hr
      exact RecentRow.isFor_iff
    simp only [Tables.useOf?, Tables.uses, hrecents, Option.getD_some, find?_without hgone]
    split <;> rfl

end Pinboard.Store
