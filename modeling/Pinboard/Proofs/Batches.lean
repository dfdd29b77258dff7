import Pinboard.Proofs.Footprint
import Pinboard.Proofs.Interchange
import Pinboard.Proofs.Reflection

/-!
# Batches of uses

A batch records the same moment for several keys, one after another, in a database that those
before have changed. What it leaves for each of its keys is nevertheless what recording that key
alone would have left. The recording of one key neither lets another one pass nor holds it up
(`recordUse_yields_after`), and recording a key once more does no more than once (`renewed_twice`).
So a batch depends on the set of its keys only.
-/

namespace Pinboard.Store

/-! ## What the ledger tells of a key -/

/-- What the ledger tells of a key of a user. -/
def Tables.entriesOf (t : Tables) (owner : Int) (key : Cell) : List (Int × Cell × Cell) :=
  (t.uses.filter (·.isFor owner key)).map (·.entry)

theorem Tables.useOf?_eq (t : Tables) (owner : Int) (key : Cell) :
    t.useOf? owner key = (t.entriesOf owner key).head?.map (·.2.2) := by
  rw [useOf?, entriesOf, List.head?_map, List.head?_filter, Option.map_map]
  rfl

/-- What a ledger tells of a key once a use of it was recorded, by what it told before. -/
def renewed (strategy : Dialect.Strategy) (entry : Int × Cell × Cell) :
    List (Int × Cell × Cell) → List (Int × Cell × Cell)
  | [] => [entry]
  | old :: rest =>
    match strategy with
    | .replace => [entry]
    | _ => (old :: rest).map fun _ => entry

/-- Recording the same use once more changes nothing that the ledger tells. -/
theorem renewed_twice (strategy : Dialect.Strategy) (entry : Int × Cell × Cell)
    (old : List (Int × Cell × Cell)) :
    renewed strategy entry (renewed strategy entry old) = renewed strategy entry old := by
  cases old with
  | nil => cases strategy <;> rfl
  | cons e rest => cases strategy <;> simp [renewed]

theorem entry_of_isFor {r row : RecentRow} (h : r.isFor row.owner row.key = true) :
    RecentRow.entry { r with lastUsed := row.lastUsed } = row.entry := by
  obtain ⟨howner, hkey⟩ := RecentRow.isFor_iff.mp h
  unfold RecentRow.entry
  rw [howner, hkey]

section Entries

variable {row : RecentRow} {rows : List RecentRow}

theorem filter_isFor_numbered :
    [row.numbered rows].filter (·.isFor row.owner row.key) = [row.numbered rows] := by
  simp [RecentRow.isFor_self]

theorem filter_isFor_replaced :
    (rows.filter (!·.isFor row.owner row.key) ++ [row.numbered rows]).filter
      (·.isFor row.owner row.key) = [row.numbered rows] := by
  have hgone : (rows.filter (!·.isFor row.owner row.key)).filter
      (·.isFor row.owner row.key) = [] := by
    rw [List.filter_filter]
    simp
  rw [List.filter_append, hgone, List.nil_append, filter_isFor_numbered]

theorem filter_isFor_retimed :
    (retime row rows).filter (·.isFor row.owner row.key) =
      (rows.filter (·.isFor row.owner row.key)).map
        fun r => { r with lastUsed := row.lastUsed } := by
  have hsame : (·.isFor row.owner row.key) ∘ (fun r : RecentRow =>
      if r.isFor row.owner row.key then { r with lastUsed := row.lastUsed } else r) =
        (·.isFor row.owner row.key) := by
    funext r
    rw [Function.comp_apply]
    split <;> rfl
  rw [retime, List.filter_map, hsame]
  refine List.map_congr_left fun r hr => ?_
  rw [if_pos (List.mem_filter.mp hr).2]

theorem filter_isFor_added (h : rows.find? (·.isFor row.owner row.key) = none) :
    (rows ++ [row.numbered rows]).filter (·.isFor row.owner row.key) = [row.numbered rows] := by
  have hnone : rows.filter (·.isFor row.owner row.key) = [] :=
    List.filter_eq_nil_iff.mpr (List.find?_eq_none.mp h)
  rw [List.filter_append, hnone, List.nil_append, filter_isFor_numbered]

/-- What the ledger tells of the key of a use that was recorded. -/
theorem putRecent_entriesOf {s : Setting} {strategy : Dialect.Strategy} {t t' : Tables} {u : Unit}
    (h : putRecent s strategy row t = .ok (u, t')) :
    t'.entriesOf row.owner row.key =
      renewed strategy row.entry (t.entriesOf row.owner row.key) := by
  cases strategy with
  | duplicateKey => cases h
  | replace =>
    obtain ⟨-, -, rows, _, hrows, -, -, rfl⟩ := replaceRecent_eq_ok.mp h
    have hnew : renewed .replace row.entry (t.entriesOf row.owner row.key) = [row.entry] := by
      cases t.entriesOf row.owner row.key <;> rfl
    rw [hnew, Tables.entriesOf, Tables.uses_eq rfl, filter_isFor_replaced]
    rfl
  | conflictTarget =>
    obtain ⟨-, -, -, rows, _, hrows, -, hput⟩ := mergeRecent_eq_ok.mp h
    rw [Tables.entriesOf, Tables.entriesOf, Tables.uses_eq hrows]
    rcases hput with ⟨old, hold, -, rfl⟩ | ⟨hnone, -, rfl⟩
    · have hmem : old ∈ rows.filter (·.isFor row.owner row.key) :=
        List.mem_filter.mpr ⟨List.mem_of_find?_eq_some hold, isFor_of_find? hold⟩
      have hentry : (rows.filter (·.isFor row.owner row.key)).map
          (RecentRow.entry ∘ fun r => { r with lastUsed := row.lastUsed }) =
            (rows.filter (·.isFor row.owner row.key)).map fun _ => row.entry :=
        List.map_congr_left fun r hr => entry_of_isFor (List.mem_filter.mp hr).2
      rw [Tables.uses_eq rfl, filter_isFor_retimed, List.map_map, hentry]
      generalize rows.filter (·.isFor row.owner row.key) = olds at hmem
      cases olds with
      | nil => cases hmem
      | cons r rest => simp [renewed, Function.comp_def]
    · rw [Tables.uses_eq rfl, filter_isFor_added hnone,
        List.filter_eq_nil_iff.mpr (List.find?_eq_none.mp hnone)]
      rfl

end Entries

/-! ## What lets a use be put -/

section Allowed

variable {s : Setting} {x : Dialect.Strategy} {t t1 : Tables}

/-- What else the ledger holds has no part in whether a use may be put. -/
theorem putRecent_allowed_of {row : RecentRow} (hrest : t1 = t.withRecents t1.recents)
    (hthere : t1.recents.isSome = t.recents.isSome)
    (hold : t1.uses.find? (·.isFor row.owner row.key) =
      t.uses.find? (·.isFor row.owner row.key))
    (h : ∃ t', putRecent s x row t = .ok ((), t')) :
    ∃ t', putRecent s x row t1 = .ok ((), t') := by
  obtain ⟨t', h⟩ := h
  have hready : t1.ready s .recents .insert = t.ready s .recents .insert := by
    rw [hrest, Tables.withRecents_ready hthere]
  have hschema : t1.schema s = t.schema s := by
    unfold Tables.schema
    rw [hrest, Tables.withRecents_present hthere]
  have husers : t1.users = t.users := by rw [hrest]; rfl
  cases x with
  | duplicateKey => cases h
  | replace =>
    obtain ⟨hr, hp, rows, users, hrows, hu, howner, -⟩ := replaceRecent_eq_ok.mp h
    rw [hrows] at hthere
    obtain ⟨rows1, hrows1⟩ := Option.isSome_iff_exists.mp hthere
    exact ⟨_, replaceRecent_eq_ok.mpr
      ⟨hready.trans hr, hp, rows1, users, hrows1, husers.trans hu, howner, rfl⟩⟩
  | conflictTarget =>
    obtain ⟨hr, hs, hp, rows, users, hrows, hu, hput⟩ := mergeRecent_eq_ok.mp h
    rw [Tables.uses_eq hrows] at hold
    rw [hrows] at hthere
    obtain ⟨rows1, hrows1⟩ := Option.isSome_iff_exists.mp hthere
    rw [Tables.uses_eq hrows1] at hold
    rw [← hschema] at hs
    rcases hput with ⟨old, hfound, hpermit, -⟩ | ⟨hnone, howner, -⟩
    · exact ⟨_, mergeRecent_eq_ok.mpr ⟨hready.trans hr, hs, hp, rows1, users, hrows1,
        husers.trans hu, Or.inl ⟨old, hold.trans hfound, hpermit, rfl⟩⟩⟩
    · exact ⟨_, mergeRecent_eq_ok.mpr ⟨hready.trans hr, hs, hp, rows1, users, hrows1,
        husers.trans hu, Or.inr ⟨hold.trans hnone, howner, rfl⟩⟩⟩

end Allowed

/-! ## What a statement needs, and what the connection remembers -/

section Ready

variable {α : Type} {s : Setting} {needs : Schema → Except StorageError Unit} {c : Connection}

/-- A statement of its own has what it needs, when it is prepared and when it runs. -/
def Connection.Ready (c : Connection) (s : Setting) (needs : Schema → Except StorageError Unit) :
    Prop :=
  c.Prepares s needs ∧ needs (c.tables.schema s) = .ok ()

/-- A connection that has looked while it prepared a statement has prepared it by what is there. -/
theorem Connection.prepare_known (c : Connection) (s : Setting)
    (needs : Schema → Except StorageError Unit) :
    (c.prepare s needs).2.known = c.known ∨
      (c.prepare s needs).2.known = c.tables.schema s ∧
        (c.prepare s needs).1 = needs (c.tables.schema s) := by
  unfold prepare
  cases needs c.known with
  | ok u => exact Or.inl rfl
  | error e =>
    dsimp only
    split
    · exact Or.inr ⟨rfl, rfl⟩
    · exact Or.inl rfl

/-- Steps that have run leave the connection knowing the tables that there are. -/
theorem runSteps_looks (s : Setting) (lasts : α → Bool) (steps : Steps α) (c : Connection) :
    (runSteps s lasts steps c).2.known = (runSteps s lasts steps c).2.tables.schema s := by
  unfold runSteps
  rcases steps c.tables c.changed with ⟨r | ⟨a, t⟩, changed⟩
  · rfl
  · dsimp only
    split
    · cases s.commit <;> rfl
    · rfl

/-- A statement of its own leaves the connection with what it remembered, or with what is there. It
looks only where that would have let the statement be prepared. -/
theorem autocommit_remembers (s : Setting) (rowwise : Bool)
    (needs : Schema → Except StorageError Unit) (steps : Steps α) (c : Connection) :
    (autocommit s rowwise needs steps c).2.known = c.known ∨
      (autocommit s rowwise needs steps c).2.known =
          (autocommit s rowwise needs steps c).2.tables.schema s ∧
        (needs (c.tables.schema s) = .ok () → c.Prepares s needs) := by
  have hkeep := (c.prepare_keeps s needs).1
  have hknown := c.prepare_known s needs
  unfold Connection.Prepares autocommit
  generalize c.prepare s needs = prepared at hkeep hknown ⊢
  rcases prepared with ⟨e | u, c'⟩
  · dsimp only at hkeep hknown ⊢
    rw [hkeep]
    exact hknown.imp_right fun ⟨hsaw, hneeds⟩ => ⟨hsaw, fun h => hneeds.trans h⟩
  · have hlooks := runSteps_looks s (fun _ => true) steps c'
    dsimp only at hkeep hknown ⊢
    have hearly : c'.known = c.known ∨ c'.known = c'.tables.schema s ∧
        (needs (c.tables.schema s) = .ok () → (Except.ok u : Except StorageError Unit) = .ok ()) :=
      hknown.imp_right fun ⟨hsaw, _⟩ => ⟨by rw [hkeep, hsaw], fun _ => rfl⟩
    cases s.permitWriting with
    | error e => cases rowwise <;> exact hearly
    | ok u =>
      cases s.beginWriting with
      | error e => cases rowwise <;> exact hearly
      | ok u =>
        cases needs (c'.tables.schema s) with
        | error e => exact Or.inr ⟨rfl, fun _ => rfl⟩
        | ok u =>
          dsimp only
          generalize runSteps s (fun _ => true) steps c' = ran at hlooks ⊢
          rcases ran with ⟨r | a, c''⟩
          · cases rowwise <;> exact Or.inr ⟨hlooks, fun _ => rfl⟩
          · exact Or.inr ⟨hlooks, fun _ => rfl⟩

/-- A statement that makes no table and drops none leaves the connection as ready for it as it
was. -/
theorem autocommit_ready {rowwise : Bool} {steps : Steps α}
    (hschema : (autocommit s rowwise needs steps c).2.tables.schema s = c.tables.schema s) :
    (autocommit s rowwise needs steps c).2.Ready s needs ↔ c.Ready s needs := by
  have hremembers := autocommit_remembers s rowwise needs steps c
  generalize (autocommit s rowwise needs steps c).2 = c1 at hschema hremembers ⊢
  unfold Connection.Ready
  rw [hschema, and_congr_left_iff]
  intro hneeds
  rcases hremembers with hknown | ⟨hknown, hprepares⟩
  · unfold Connection.Prepares Connection.prepare
    rw [hknown, hschema]
    cases needs c.known with
    | ok u => rfl
    | error e =>
      dsimp only
      split <;> rfl
  · refine iff_of_true ?_ (hprepares hneeds)
    unfold Connection.Prepares Connection.prepare
    rw [hknown, hschema, hneeds]

end Ready

/-! ## Recording one key after another -/

section After

variable {s : Setting} {x : Dialect.Strategy} {owner : UserId} {moment : Time.Instant}

theorem recordUse_yields {key : String} {c : Connection} {t : Tables} :
    (recordUse s x owner key moment).Yields c () t ↔
      c.Ready s (requireRecent x) ∧
        (s.permitWriting = .ok () ∧ s.beginWriting = .ok () ∧ s.commit = .ok ()) ∧
        putRecent s x (.ofUse owner key moment) c.tables = .ok ((), t) := by
  unfold recordUse Connection.Ready
  rw [autocommit_yields, Steps.change_eq_ok]
  tauto

theorem recordUse_eq_ok {key : String} {c : Connection} :
    (recordUse s x owner key moment c).1 = .ok () ↔
      c.Ready s (requireRecent x) ∧
        (s.permitWriting = .ok () ∧ s.beginWriting = .ok () ∧ s.commit = .ok ()) ∧
        ∃ t, putRecent s x (.ofUse owner key moment) c.tables = .ok ((), t) := by
  constructor
  · intro h
    obtain ⟨hready, hwrite, hput⟩ := recordUse_yields.mp ⟨h, rfl⟩
    exact ⟨hready, hwrite, _, hput⟩
  · rintro ⟨hready, hwrite, t, hput⟩
    exact (recordUse_yields.mpr ⟨hready, hwrite, hput⟩).1

/-- Recording a use touches no row of another key. -/
theorem recordUse_recorded (s : Setting) (x : Dialect.Strategy) (owner : UserId)
    (moment : Time.Instant) (key : String) (c : Connection) :
    Recorded owner [key] moment c.tables (recordUse s x owner key moment c).2.tables := by
  cases h : (recordUse s x owner key moment c).1 with
  | error r =>
    rw [recordUse_atomic s x owner key moment c r h]
    exact .refl owner [key] moment c.tables
  | ok u => exact (recordUse_spec ⟨h, rfl⟩).recorded

theorem Recorded.schema {keys : List String} {t t' : Tables} (h : Recorded owner keys moment t t')
    (s : Setting) : t'.schema s = t.schema s := by
  have hpresent : t'.present = t.present := by
    rw [h.ledger]
    exact Tables.withRecents_present h.present
  unfold Tables.schema
  rw [hpresent]

/-- The rows of a key that is not among those recorded are the same. -/
theorem Recorded.filter_unnamed {keys : List String} {t t' : Tables}
    (h : Recorded owner keys moment t t') {o : Int} {k : Cell}
    (hk : ∀ key ∈ keys, ¬ (o = wide owner ∧ k = .text key)) :
    t'.uses.filter (·.isFor o k) = t.uses.filter (·.isFor o k) := by
  have hpart : ∀ rows : List RecentRow,
      (rows.filter (!·.isForAny owner keys)).filter (·.isFor o k) =
        rows.filter (·.isFor o k) := by
    intro rows
    refine filter_own_of_others (fun r hr => ?_) rows
    obtain ⟨rfl, rfl⟩ := RecentRow.isFor_iff.mp hr
    rw [RecentRow.isForAny, List.any_eq_false]
    intro key hkey hfor
    exact hk key hkey (RecentRow.isFor_iff.mp hfor)
  rw [← hpart, h.others, hpart]

/-- Recording one key neither lets the recording of another one pass nor holds it up. Nor does it
where it was refused itself. -/
theorem recordUse_eq_ok_after {k key : String} {c : Connection}
    (h : key ≠ k ∨ (recordUse s x owner k moment c).1 ≠ .ok ()) :
    (recordUse s x owner key moment (recordUse s x owner k moment c).2).1 = .ok () ↔
      (recordUse s x owner key moment c).1 = .ok () := by
  have hrecorded := recordUse_recorded s x owner moment k c
  have hready : (recordUse s x owner k moment c).2.Ready s (requireRecent x) ↔
      c.Ready s (requireRecent x) := autocommit_ready (hrecorded.schema s)
  rw [recordUse_eq_ok, recordUse_eq_ok, hready]
  refine and_congr_right fun _ => and_congr_right fun _ => ?_
  by_cases hsame : (recordUse s x owner k moment c).2.tables = c.tables
  · rw [hsame]
  have hgranted : (recordUse s x owner k moment c).1 = .ok () := by
    cases hresult : (recordUse s x owner k moment c).1 with
    | error r => exact absurd (recordUse_atomic s x owner k moment c r hresult) hsame
    | ok u => rfl
  have hother : ∀ key' ∈ [k], ¬ (wide owner = wide owner ∧ Cell.text key = .text key') := by
    intro key' hkey' hslot
    rw [List.mem_singleton.mp hkey'] at hslot
    exact h.elim (fun hne => hne (Cell.text.inj hslot.2)) fun hne => hne hgranted
  have hfind := congrArg List.head? (hrecorded.filter_unnamed hother)
  rw [List.head?_filter, List.head?_filter] at hfind
  generalize (recordUse s x owner k moment c).2.tables = t1 at hrecorded hfind
  have hback : c.tables = t1.withRecents c.tables.recents := by rw [hrecorded.ledger]; rfl
  exact ⟨putRecent_allowed_of hback hrecorded.present.symm hfind.symm,
    putRecent_allowed_of hrecorded.ledger hrecorded.present hfind⟩

/-- What the ledger tells of a key after its use was recorded. -/
theorem recordUse_entriesOf {key : String} {c : Connection}
    (h : (recordUse s x owner key moment c).1 = .ok ()) :
    (recordUse s x owner key moment c).2.tables.entriesOf (wide owner) (.text key) =
      renewed x (RecentRow.ofUse owner key moment).entry
        (c.tables.entriesOf (wide owner) (.text key)) := by
  obtain ⟨-, -, hput⟩ := recordUse_yields.mp ⟨h, rfl⟩
  exact putRecent_entriesOf hput

/-- A use that was recorded is in the ledger with the milliseconds of its moment. -/
theorem useOf?_of_recordUse {key : String} {c : Connection}
    (h : (recordUse s x owner key moment c).1 = .ok ()) :
    (recordUse s x owner key moment c).2.tables.useOf? (wide owner) (.text key) =
      some (.integer moment.millis) := by
  have hown : (RecentRow.ofUse owner key moment).isFor (wide owner) (.text key) = true :=
    RecentRow.isFor_iff.mpr ⟨rfl, rfl⟩
  rw [(recordUse_spec ⟨h, rfl⟩).useOf?, if_pos hown]
  rfl

/-- What recording a key leaves for it is the same after another key was recorded, and after the
key itself was. -/
theorem recordUse_entriesOf_after (s : Setting) (x : Dialect.Strategy) (owner : UserId)
    (moment : Time.Instant) (k key : String) (c : Connection) :
    (recordUse s x owner key moment
        (recordUse s x owner k moment c).2).2.tables.entriesOf (wide owner) (.text key) =
      (recordUse s x owner key moment c).2.tables.entriesOf (wide owner) (.text key) := by
  by_cases hk : key = k ∧ (recordUse s x owner k moment c).1 = .ok ()
  · obtain ⟨rfl, hgranted⟩ := hk
    rw [recordUse_entriesOf hgranted]
    cases hagain : (recordUse s x owner key moment (recordUse s x owner key moment c).2).1 with
    | error r => rw [recordUse_atomic _ _ _ _ _ _ r hagain, recordUse_entriesOf hgranted]
    | ok u => rw [recordUse_entriesOf hagain, recordUse_entriesOf hgranted, renewed_twice]
  · have hiff : (recordUse s x owner key moment (recordUse s x owner k moment c).2).1 = .ok () ↔
        (recordUse s x owner key moment c).1 = .ok () :=
      recordUse_eq_ok_after (by tauto)
    have hkept : (recordUse s x owner k moment c).2.tables.entriesOf (wide owner) (.text key) =
        c.tables.entriesOf (wide owner) (.text key) := by
      unfold Tables.entriesOf
      cases hfirst : (recordUse s x owner k moment c).1 with
      | error r => rw [recordUse_atomic s x owner k moment c r hfirst]
      | ok u =>
        rw [(recordUse_recorded s x owner moment k c).filter_unnamed]
        intro key' hkey' hslot
        rw [List.mem_singleton.mp hkey'] at hslot
        exact hk ⟨Cell.text.inj hslot.2, hfirst⟩
    cases hresult : (recordUse s x owner key moment c).1 with
    | ok u => rw [recordUse_entriesOf (hiff.mpr hresult), recordUse_entriesOf hresult, hkept]
    | error r =>
      rw [recordUse_atomic s x owner key moment c r hresult]
      cases hagain : (recordUse s x owner key moment (recordUse s x owner k moment c).2).1 with
      | ok u => rw [hiff.mp hagain] at hresult; cases hresult
      | error r' => rw [recordUse_atomic _ _ _ _ _ _ r' hagain, hkept]

end After

/-! ## Ledgers that tell the same -/

/-- Ledgers that tell the same of each key have the same rows, up to their order and numbers. -/
theorem entries_perm {t t' : Tables} (h : ∀ o k, t'.entriesOf o k = t.entriesOf o k) :
    (t'.uses.map (·.entry)).Perm (t.uses.map (·.entry)) := by
  have hcount : ∀ (u : Tables) (e : Int × Cell × Cell),
      (u.entriesOf e.1 e.2.1).count e = (u.uses.map (·.entry)).count e := by
    intro u e
    have hpart : u.entriesOf e.1 e.2.1 =
        (u.uses.map (·.entry)).filter fun e' => e'.1 == e.1 && e'.2.1 == e.2.1 := by
      rw [List.filter_map]
      rfl
    rw [hpart, List.count_filter (by simp)]
  rw [List.perm_iff_count]
  intro e
  rw [← hcount, ← hcount, h]

/-- Two recordings under the same keys that tell the same of each leave the same rows. -/
theorem Recorded.sameRows {owner : UserId} {moment : Time.Instant} {keys : List String}
    {t t1 t2 : Tables}
    (h1 : Recorded owner keys moment t t1) (h2 : Recorded owner keys moment t t2)
    (hkeys : ∀ key ∈ keys, t2.entriesOf (wide owner) (.text key) =
      t1.entriesOf (wide owner) (.text key)) : t1.SameRows t2 := by
  have hentries : ∀ o k, t2.entriesOf o k = t1.entriesOf o k := by
    intro o k
    by_cases hnamed : ∃ key ∈ keys, o = wide owner ∧ k = .text key
    · obtain ⟨key, hkey, rfl, rfl⟩ := hnamed
      exact hkeys key hkey
    · have hother : ∀ key ∈ keys, ¬ (o = wide owner ∧ k = .text key) :=
        fun key hkey hslot => hnamed ⟨key, hkey, hslot⟩
      unfold Tables.entriesOf
      rw [h2.filter_unnamed hother, h1.filter_unnamed hother]
  have hperm := entries_perm hentries
  have hthere := h2.present.trans h1.present.symm
  rw [h1.ledger, h2.ledger]
  refine ⟨rfl, rfl, rfl, ?_, rfl, rfl⟩
  unfold Tables.uses at hperm
  cases hr1 : t1.recents with
  | none =>
    have hr2 : t2.recents = none := by
      rw [hr1] at hthere
      simpa using hthere
    rw [hr2]
    exact .none
  | some rows =>
    rw [hr1] at hthere
    obtain ⟨rows', hr2⟩ := Option.isSome_iff_exists.mp hthere
    rw [hr1, hr2] at hperm
    rw [hr2]
    exact .some hperm

/-! ## Batches -/

section Batch

variable (s : Setting) (x : Dialect.Strategy) (owner : UserId) (moment : Time.Instant)

/-- A batch leaves for each of its keys what recording that key alone leaves. -/
theorem recordUses_entriesOf {key : String} {keys : List String} (hkey : key ∈ keys)
    (c : Connection) :
    (recordUses s x owner moment keys c).2.tables.entriesOf (wide owner) (.text key) =
      (recordUse s x owner key moment c).2.tables.entriesOf (wide owner) (.text key) := by
  induction keys generalizing c with
  | nil => cases hkey
  | cons k keys ih =>
    rw [recordUses_cons]
    by_cases hlater : key ∈ keys
    · rw [ih hlater]
      exact recordUse_entriesOf_after s x owner moment k key c
    · -- the key comes first and never again, so the others leave its rows alone
      rcases List.mem_cons.mp hkey with rfl | hkey
      · unfold Tables.entriesOf
        rw [(recordUses_spec s x owner moment keys _).recorded.filter_unnamed]
        intro key' hkey' hslot
        exact hlater (Cell.text.inj hslot.2 ▸ hkey')
      · exact absurd hkey hlater

/-- Whatever surrounds a batch, and whatever the tables hold: it leaves for each of its keys what
recording that key alone would leave. The moment is that of the batch if the key alone would be
recorded, and the rows of the key are as before if it would be refused. All other rows are as
before, and a batch with the same keys, in another order or with other repetitions, leaves the same
rows. -/
theorem recordUses_each_alone (keys : List String) (c : Connection) :
    let left := (recordUses s x owner moment keys c).2.tables
    (∀ key ∈ keys,
      left.entriesOf (wide owner) (.text key) =
        (recordUse s x owner key moment c).2.tables.entriesOf (wide owner) (.text key) ∧
      match (recordUse s x owner key moment c).1 with
      | .ok _ => left.useOf? (wide owner) (.text key) = some (.integer moment.millis)
      | .error _ =>
        left.entriesOf (wide owner) (.text key) = c.tables.entriesOf (wide owner) (.text key)) ∧
    left = { c.tables with recents := left.recents } ∧
    left.recents.isSome = c.tables.recents.isSome ∧
    left.uses.filter (!·.isForAny owner keys) = c.tables.uses.filter (!·.isForAny owner keys) ∧
    ∀ keys', (∀ key, key ∈ keys' ↔ key ∈ keys) →
      left.SameRows (recordUses s x owner moment keys' c).2.tables := by
  intro left
  have hrecorded : Recorded owner keys moment c.tables left :=
    (recordUses_spec s x owner moment keys c).recorded
  have halone := fun key (hkey : key ∈ keys) => recordUses_entriesOf s x owner moment hkey c
  refine ⟨fun key hkey => ⟨halone key hkey, ?_⟩, hrecorded.ledger, hrecorded.present,
    hrecorded.others, fun keys' hsame => ?_⟩
  · cases hresult : (recordUse s x owner key moment c).1 with
    | ok u =>
      have huse := useOf?_of_recordUse hresult
      rwa [Tables.useOf?_eq, ← halone key hkey, ← Tables.useOf?_eq] at huse
    | error r =>
      have hkept := halone key hkey
      rwa [recordUse_atomic s x owner key moment c r hresult] at hkept
  · refine hrecorded.sameRows
      ((recordUses_spec s x owner moment keys' c).recorded.mono fun key => (hsame key).mp) ?_
    intro key hkey
    rw [halone key hkey]
    exact recordUses_entriesOf s x owner moment ((hsame key).mpr hkey) c

/-- A fault strikes every change of a use. In both batches the first use of each key is recorded,
and the second one of the same key is refused. -/
theorem recordUses_each_alone_with_refusals :
    let s : Setting := { faults := [⟨1, .recents, .update, none, "kept"⟩] }
    let c : Connection := ⟨{ Tables.fresh with users := some [⟨1, .text "u"⟩] }, ⟨[], []⟩, 0⟩
    let batch := recordUses s .conflictTarget 1 ⟨5, 0, by decide⟩ ["b", "a", "b"] c
    let other := recordUses s .conflictTarget 1 ⟨5, 0, by decide⟩ ["a", "b"] c
    (∀ key, key ∈ ["a", "b"] ↔ key ∈ ["b", "a", "b"]) ∧
      batch.1.map (·.key) = ["b"] ∧ other.1 = [] ∧ batch.2.tables.SameRows other.2.tables ∧
      batch.2.tables ≠ other.2.tables := by
  intro s c batch other
  have hsame : ∀ key, key ∈ ["a", "b"] ↔ key ∈ ["b", "a", "b"] := by
    intro key
    simp only [List.mem_cons, List.not_mem_nil, or_false]
    tauto
  obtain ⟨-, -, -, -, hrows⟩ :=
    recordUses_each_alone s .conflictTarget 1 ⟨5, 0, by decide⟩ ["b", "a", "b"] c
  exact ⟨hsame, by decide, by decide, hrows ["a", "b"] hsame, by decide⟩

end Batch

end Pinboard.Store
