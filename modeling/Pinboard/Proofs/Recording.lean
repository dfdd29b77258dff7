import Mathlib.Data.List.Forall2
import Pinboard.Proofs.Lockstep

/-!
# Recording in either way

A use can be recorded by a statement that lets the old row make way, or by one that changes it. In
fair circumstances the two ask for the same and leave the ledger telling the same, whatever the
order and the numbers of its rows. The order still shows where several faults strike the removal of
a user's uses: which of them is reported depends on it, and on nothing else. And where no row can be
written, a use of nobody is refused for the one reason or the other, as a statement looks for the
user before it writes the row or after that.
-/

namespace Pinboard.Store

/-! ## Fair circumstances -/

/-- No fault on the change of a use is known. -/
def Schema.Plain (k : Schema) : Prop := ∀ f ∈ k.faults, f.table = .recents → f.event ≠ .update

/-- Circumstances that do not tell the ways of recording apart: no fault looks at the change of a
use, or at the number of its row when it goes. -/
structure Setting.Fair (s : Setting) : Prop where
  /-- No fault strikes the change of a use. -/
  update : ∀ f ∈ s.faults, f.table = .recents → f.event ≠ .update
  /-- No fault on the removal of a use looks at the number of the row. -/
  delete : ∀ f ∈ s.faults, f.table = .recents → f.event = .delete →
    ∀ column given, f.only = some (column, given) → columnName column ≠ rowNumberColumn

theorem sound_update_of_plain {k : Schema} (hk : k.Plain) :
    k.sound .recents .update = .ok () := by
  have hnone : (k.faults.filter fun f => f.table == .recents && f.event == .update) = [] := by
    rw [List.filter_eq_nil_iff]
    intro f hf h
    rw [Bool.and_eq_true, beq_iff_eq, beq_iff_eq] at h
    exact hk f hf h.1 h.2
  unfold Schema.sound
  rw [hnone]
  rfl

/-- Either both ways of recording are known to the database, or neither is. -/
def Akin (x x' : Dialect.Strategy) : Prop := x = .duplicateKey ↔ x' = .duplicateKey

instance (x x' : Dialect.Strategy) : Decidable (Akin x x') :=
  inferInstanceAs (Decidable (x = .duplicateKey ↔ x' = .duplicateKey))

theorem requireRecent_of_plain {k : Schema} (hk : k.Plain) {x : Dialect.Strategy}
    (hx : x ≠ .duplicateKey) : requireRecent x k = requireFor k .recents .insert := by
  cases x with
  | replace => rfl
  | duplicateKey => exact absurd rfl hx
  | conflictTarget =>
    unfold requireRecent
    rw [sound_update_of_plain hk]
    cases requireFor k .recents .insert <;> rfl

/-- Both ways of recording need the same. -/
theorem requireRecent_akin {k : Schema} (hk : k.Plain) {x x' : Dialect.Strategy}
    (hx : Akin x x') : requireRecent x' k = requireRecent x k := by
  by_cases h : x = .duplicateKey
  · rw [h, hx.mp h]
  · rw [requireRecent_of_plain hk h, requireRecent_of_plain hk (mt hx.mpr h)]

/-- A refusal of a row names a fault. -/
theorem permit_eq_error {s : Setting} {table : Table} {event : RowEvent} {row : Columns}
    {e : StorageError} (h : s.permit table event row = .error e) :
    ∃ f ∈ s.faults, f.table = table ∧ f.event = event ∧ e = .struck f.message := by
  unfold Setting.permit at h
  cases hf : s.faults.find? (·.strikes table event row) with
  | none =>
    rw [hf] at h
    cases h
  | some f =>
    rw [hf] at h
    cases h
    have hstrikes := List.find?_some hf
    unfold Fault.strikes at hstrikes
    simp only [Bool.and_eq_true, beq_iff_eq] at hstrikes
    exact ⟨f, List.mem_of_find?_eq_some hf, hstrikes.1.1, hstrikes.1.2, rfl⟩

/-- Nothing but what stands in the way of all writing keeps a use from being changed. -/
theorem Setting.Fair.write_update {s : Setting} (hs : s.Fair) (row : Columns) :
    s.write .recents .update row = s.setAside := by
  unfold Setting.write
  cases h : s.permit .recents .update row with
  | ok u => rfl
  | error e =>
    obtain ⟨f, hf, htable, hevent, -⟩ := permit_eq_error h
    exact absurd hevent (hs.update f hf htable)

/-- What a row tells, its number aside. -/
def RecentRow.entry (r : RecentRow) : Int × Cell × Cell := (r.owner, r.key, r.lastUsed)

/-- A column that is not the number of a row holds what the row tells. -/
theorem lookup_columns {r r' : RecentRow} (h : r'.entry = r.entry) {column : String}
    (hc : column ≠ rowNumberColumn) : r'.columns.lookup column = r.columns.lookup column := by
  have hnumber : (column == rowNumberColumn) = false := beq_eq_false_iff_ne.mpr hc
  unfold RecentRow.entry at h
  obtain ⟨howner, h⟩ := Prod.mk.inj h
  obtain ⟨hkey, hused⟩ := Prod.mk.inj h
  unfold RecentRow.columns Table.row
  rw [List.lookup_cons, List.lookup_cons, hnumber, howner, hkey, hused]

/-- A row may go if one that tells the same may. -/
theorem Setting.Fair.write_delete {s : Setting} (hs : s.Fair) {r r' : RecentRow}
    (h : r'.entry = r.entry) :
    s.write .recents .delete r'.columns = s.write .recents .delete r.columns := by
  have hstrikes : ∀ f ∈ s.faults, f.strikes .recents .delete r'.columns =
      f.strikes .recents .delete r.columns := by
    intro f hf
    unfold Fault.strikes
    by_cases hd : f.table = .recents ∧ f.event = .delete
    · cases honly : f.only with
      | none => rfl
      | some given =>
        obtain ⟨column, wanted⟩ := given
        have hlookup := lookup_columns h (hs.delete f hf hd.1 hd.2 column wanted honly)
        cases wanted with
        | none => rfl
        | some c =>
          dsimp only
          rw [hlookup]
    · have hfalse : (f.table == .recents && f.event == .delete) = false := by
        rw [← Bool.not_eq_true, Bool.and_eq_true, beq_iff_eq, beq_iff_eq]
        exact hd
      rw [hfalse, Bool.false_and, Bool.false_and]
  unfold Setting.write Setting.permit
  rw [← List.head?_filter, ← List.head?_filter, List.filter_congr hstrikes]

/-! ## Recording a use -/

/-- What the recording of a use asks for in either way. The user is looked for before the row is
written, or after that. -/
def useGate (s : Setting) (mayDoMore : Bool) (row : RecentRow) (t : Tables) :
    Except StorageError Unit := do
  t.ready s .recents .insert
  let _ ← t.recentRows
  let users ← t.parentRows
  s.permit .recents .insert { row with number := unnumbered }.columns
  let _ ← s.writeChild mayDoMore users (.integer row.owner)

theorem useGate_withRecents {t : Tables} {r : Option (List RecentRow)}
    (hr : r.isSome = t.recents.isSome) (s : Setting) (mayDoMore : Bool) (row : RecentRow) :
    useGate s mayDoMore row (t.withRecents r) = useGate s mayDoMore row t := by
  unfold useGate
  rw [Tables.withRecents_ready hr]
  cases r with
  | none =>
    cases hrecents : t.recents with
    | none => simp only [Tables.recentRows, Tables.withRecents, hrecents]; rfl
    | some rows => simp [hrecents] at hr
  | some rows =>
    cases hrecents : t.recents with
    | none => simp [hrecents] at hr
    | some rows' => simp only [Tables.recentRows, Tables.withRecents, hrecents]; rfl

/-- Two causes for which a use is not recorded are the same, or the one is what stands in the way of
all writing, and the other that the user is not there. -/
inductive Setting.SameBar (s : Setting) : StorageError → StorageError → Prop where
  /-- The causes are the same. -/
  | same (e : StorageError) : SameBar s e e
  /-- The user would have been looked for after the row was written. -/
  | late {bar : StorageError} (h : s.unwritable = some bar) : SameBar s bar .noParentRow
  /-- The user was looked for before the row would have been written. -/
  | early {bar : StorageError} (h : s.unwritable = some bar) : SameBar s .noParentRow bar

/-- A row whose user is looked for early is refused if it is when the user is looked for late. -/
theorem Setting.writeChild_tally (s : Setting) (mayDoMore mayDoMore' : Bool)
    (users : List UserRow) (owner : Int) :
    Tally s.SameBar Eq (s.writeChild mayDoMore users (.integer owner))
      (s.writeChild mayDoMore' users (.integer owner)) := by
  unfold Setting.writeChild Setting.setAside parentNumber
  cases hbar : s.unwritable <;> cases refersTo users (.integer owner) <;> cases mayDoMore <;>
    cases mayDoMore'
  all_goals first
    | exact .ok rfl
    | exact .error (.same _)
    | exact .error (.late hbar)
    | exact .error (.early hbar)

theorem useGate_tally (s : Setting) (mayDoMore mayDoMore' : Bool) (row : RecentRow) (t : Tables) :
    Tally s.SameBar Eq (useGate s mayDoMore row t) (useGate s mayDoMore' row t) := by
  unfold useGate
  refine .bind_same .same _ fun _ _ => .bind_same .same _ fun _ _ => .bind_same .same _
    fun users _ => .bind_same .same _ fun _ _ => ?_
  exact (s.writeChild_tally mayDoMore mayDoMore' users row.owner).bind fun _ _ _ => .ok rfl

/-- Does the statement of a strategy look for the user when the row is written? -/
def looksLate (s : Setting) : Dialect.Strategy → Bool
  | .conflictTarget => s.watches .recents .insert || s.watches .recents .update
  | _ => true

/-- In either way a use is recorded exactly where the gate lets it pass, and refused for the same
cause otherwise. -/
theorem putRecent_gate {s : Setting} (hs : s.Fair) {strategy : Dialect.Strategy}
    (hx : strategy ≠ .duplicateKey) (row : RecentRow) {t : Tables} (hk : t.Keyed) :
    (fun _ => ()) <$> putRecent s strategy row t = useGate s (looksLate s strategy) row t := by
  unfold useGate
  cases strategy with
  | duplicateKey => exact absurd rfl hx
  | replace =>
    simp only [putRecent, replaceRecent, Statement.get_bind_apply, Statement.lift_bind_apply,
      map_bind]
    rfl
  | conflictTarget =>
    have hplain : (t.schema s).Plain := hs.update
    simp only [putRecent, mergeRecent, Statement.get_bind_apply, Statement.lift_bind_apply,
      map_bind, sound_update_of_plain hplain]
    refine bind_congr fun _ => ?_
    show (t.recentRows >>= fun rows => _) = _
    cases hrows : t.recentRows with
    | error e => rfl
    | ok rows =>
      show (t.parentRows >>= fun users => _) = (t.parentRows >>= fun users => _)
      cases husers : t.parentRows with
      | error e => rfl
      | ok users =>
        show (s.permit _ _ _ >>= fun _ => _) = (s.permit _ _ _ >>= fun _ => _)
        refine bind_congr fun _ => ?_
        cases hold : rows.find? (·.isFor row.owner row.key) with
        | none =>
          simp only [Statement.lift_bind_apply, map_bind]
          rfl
        | some old =>
          -- the old use is that of a user, so the new one would be let in as well
          have huser : parentNumber users (.integer row.owner) = .ok row.owner := by
            have huses : t.uses = rows := by
              unfold Tables.uses
              rw [Tables.recentRows_eq_ok.mp hrows]
              rfl
            have howner := hk.owners old (huses ▸ List.mem_of_find?_eq_some hold)
            unfold Tables.HasUser at howner
            rw [(RecentRow.isFor_iff.mp (isFor_of_find? hold)).1,
              Tables.parentRows_eq_ok.mp husers] at howner
            exact parentNumber_integer_eq_ok.mpr ⟨rfl, howner⟩
          simp only [Statement.lift_bind_apply, hs.write_update, Setting.writeChild, huser]
          cases looksLate s .conflictTarget <;> cases s.setAside <;> rfl

/-- However a use is put, databases that were alike are alike. -/
theorem UsePut.alike {row : RecentRow} {t t' u u' : Tables} (h : UsePut row t u)
    (h' : UsePut row t' u') (ht : t.Alike t') (hk : t.Keyed) (hk' : t'.Keyed) : u.Alike u' := by
  have huses : ∀ owner key, u'.useOf? owner key = u.useOf? owner key := by
    intro owner key
    rw [h.useOf?, h'.useOf?, ht.uses]
  have hslots := (h.keyed hk).slots
  have hslots' := (h'.keyed hk').slots
  have hrest := ht.rest
  obtain ⟨rows, rfl⟩ := h.only_recents
  obtain ⟨rows', rfl⟩ := h'.only_recents
  refine ⟨?_, rfl, huses, hslots, hslots'⟩
  rw [hrest]
  rfl

theorem putRecent_tally {s : Setting} (hs : s.Fair) {x x' : Dialect.Strategy} (hx : Akin x x')
    (row : RecentRow) {t t' : Tables} (ht : t.Alike t') (hk : t.Keyed) (hk' : t'.Keyed) :
    Tally s.SameBar SameBeside (putRecent s x row t) (putRecent s x' row t') := by
  by_cases hknown : x = .duplicateKey
  · rw [hknown, hx.mp hknown]
    exact .error (.same _)
  have hgate := putRecent_gate hs hknown row hk
  have hgate' := putRecent_gate hs (mt hx.mpr hknown) row hk'
  rw [ht.rest, useGate_withRecents ht.there, ← ht.rest] at hgate'
  have htally := useGate_tally s (looksLate s x) (looksLate s x') row t
  rw [← hgate, ← hgate'] at htally
  cases h : putRecent s x row t with
  | error e =>
    cases h' : putRecent s x' row t' with
    | error e' =>
      rw [h, h'] at htally
      cases htally with
      | error hbar => exact .error hbar
    | ok p =>
      rw [h, h'] at htally
      cases htally
  | ok p =>
    cases h' : putRecent s x' row t' with
    | error e' =>
      rw [h, h'] at htally
      cases htally
    | ok p' => exact .ok ⟨rfl, (putRecent_spec h).alike (putRecent_spec h') ht hk hk'⟩

/-- Two refusals are the same, or are the database's for causes that are related. -/
def Refusal.SameUpTo (E : StorageError → StorageError → Prop) (r r' : Refusal) : Prop :=
  r = r' ∨ ∃ e e', E e e' ∧ r = .storage e ∧ r' = .storage e'

/-- The same use of two batches is left out, for causes that are related. -/
structure Unrecorded.Same (s : Setting) (u u' : Unrecorded) : Prop where
  /-- The key is the same. -/
  key : u.key = u'.key
  /-- The causes are related. -/
  cause : Refusal.SameUpTo s.SameBar u.cause u'.cause

section Recorded

variable {s : Setting} {x x' : Dialect.Strategy} {c c' : Connection}

/-- In either way the recording of a use is answered the same, or refused for one of two causes. -/
theorem recordUse_concur (hs : s.Fair) (hx : Akin x x') (owner : UserId) (key : String)
    (moment : Time.Instant) (hc : c.Alike c') (hk : c.tables.Keyed) (hk' : c'.tables.Keyed)
    (hplain : c.known.Plain) :
    Operation.Concur (Refusal.SameUpTo s.SameBar) Eq (recordUse s x owner key moment c)
      (recordUse s x' owner key moment c') := by
  have hthere : (c.tables.schema s).Plain := hs.update
  exact autocommit_concur (fun _ => Or.inl rfl) true hc (requireRecent_akin hplain hx)
    (requireRecent_akin hthere hx) (Steps.TogetherAt.tryWith
      (fun e e' he => Or.inr ⟨e, e', he, rfl, rfl⟩) (putRecent_tally hs hx _ hc.tables hk hk'))

theorem recordUse_keyed (hk : c.tables.Keyed) (owner : UserId) (key : String)
    (moment : Time.Instant) : (recordUse s x owner key moment c).2.tables.Keyed := by
  cases h : (recordUse s x owner key moment c).1 with
  | error r =>
    rw [recordUse_atomic s x owner key moment c r h]
    exact hk
  | ok u => exact (recordUse_spec ⟨h, rfl⟩).keyed hk

theorem recordUse_plain (hs : s.Fair) (hplain : c.known.Plain) (owner : UserId) (key : String)
    (moment : Time.Instant) : (recordUse s x owner key moment c).2.known.Plain := by
  unfold Schema.Plain
  rcases recordUse_learns s x owner key moment c with h | h
  · rw [h]
    exact hplain
  · rw [h]
    exact hs.update

/-- In either way the same uses of a batch are left out. -/
theorem recordUses_concur (hs : s.Fair) (hx : Akin x x') (owner : UserId)
    (moment : Time.Instant) (keys : List String) (hc : c.Alike c') (hk : c.tables.Keyed)
    (hk' : c'.tables.Keyed) (hplain : c.known.Plain) :
    List.Forall₂ (Unrecorded.Same s) (recordUses s x owner moment keys c).1
        (recordUses s x' owner moment keys c').1 ∧
      (recordUses s x owner moment keys c).2.Alike (recordUses s x' owner moment keys c').2 := by
  induction keys generalizing c c' with
  | nil => exact ⟨.nil, hc⟩
  | cons key keys ih =>
    obtain ⟨ha, hl⟩ := recordUse_concur hs hx owner key moment hc hk hk' hplain
    obtain ⟨hrest, hlast⟩ := ih hl (recordUse_keyed hk owner key moment)
      (recordUse_keyed hk' owner key moment) (recordUse_plain hs hplain owner key moment)
    unfold recordUses
    generalize recordUse s x owner key moment c = p at ha hl hrest hlast ⊢
    generalize recordUse s x' owner key moment c' = p' at ha hl hrest hlast ⊢
    obtain ⟨result, c1⟩ := p
    obtain ⟨result', c1'⟩ := p'
    dsimp only at ha hrest hlast ⊢
    cases ha with
    | ok h => exact ⟨hrest, hlast⟩
    | error h => exact ⟨.cons ⟨rfl, h⟩ hrest, hlast⟩

end Recorded

/-! ## Removing uses -/

theorem find?_of_mem {rows : List RecentRow} (hslots : (rows.map (·.slot)).Nodup) {r : RecentRow}
    (hr : r ∈ rows) : rows.find? (·.isFor r.owner r.key) = some r := by
  induction rows with
  | nil => cases hr
  | cons r' rows ih =>
    obtain ⟨hnot, hslots⟩ := List.nodup_cons.mp hslots
    rcases List.mem_cons.mp hr with rfl | hr
    · exact List.find?_cons_of_pos (RecentRow.isFor_iff_slot.mpr rfl)
    · rw [List.find?_cons_of_neg, ih hslots hr]
      intro hfor
      refine hnot ?_
      show r'.slot ∈ _
      rw [RecentRow.isFor_iff_slot.mp hfor]
      exact List.mem_map_of_mem hr

/-- At most one row is for a key. -/
theorem filter_isFor {rows : List RecentRow} (hslots : (rows.map (·.slot)).Nodup) (owner : Int)
    (key : Cell) :
    rows.filter (·.isFor owner key) = (rows.find? (·.isFor owner key)).toList := by
  induction rows with
  | nil => rfl
  | cons r rows ih =>
    obtain ⟨hnot, hslots⟩ := List.nodup_cons.mp hslots
    by_cases hr : r.isFor owner key = true
    · obtain ⟨rfl, rfl⟩ := RecentRow.isFor_iff.mp hr
      have hrest : rows.filter (·.isFor r.owner r.key) = [] := by
        rw [List.filter_eq_nil_iff]
        intro r' hr' hfor
        refine hnot ?_
        show r.slot ∈ _
        rw [← RecentRow.isFor_iff_slot.mp hfor]
        exact List.mem_map_of_mem hr'
      rw [List.filter_cons, if_pos hr, hrest, List.find?_cons, hr]
      rfl
    · rw [List.filter_cons, if_neg hr, ih hslots, List.find?_cons, (Bool.not_eq_true _).mp hr]

/-- Databases that are alike tell the same, row by row. -/
theorem Tables.Alike.entry {t t' : Tables} (ht : t.Alike t') {r : RecentRow} (hr : r ∈ t.uses) :
    ∃ r' ∈ t'.uses, r'.entry = r.entry := by
  have huse := ht.uses r.owner r.key
  unfold Tables.useOf? at huse
  rw [find?_of_mem ht.slots hr] at huse
  obtain ⟨r', hr', hused⟩ := Option.map_eq_some_iff.mp huse
  obtain ⟨howner, hkey⟩ := RecentRow.isFor_iff.mp (isFor_of_find? hr')
  refine ⟨r', List.mem_of_find?_eq_some hr', ?_⟩
  unfold RecentRow.entry
  rw [howner, hkey, hused]

theorem Tables.Alike.symm {t t' : Tables} (ht : t.Alike t') : t'.Alike t := by
  refine ⟨?_, ht.there.symm, fun owner key => (ht.uses owner key).symm, ht.slots', ht.slots⟩
  rw [ht.rest]
  rfl

/-- Both ledgers stay alike when the rows that go are chosen by what they are for. -/
theorem Tables.Alike.without {t t' : Tables} (ht : t.Alike t') {goes : RecentRow → Bool}
    (hgoes : ∀ r r' : RecentRow, r.slot = r'.slot → goes r = goes r') (u : Tables) :
    Tables.Alike (u.withRecents (t.recents.map (·.filter (!goes ·))))
      (u.withRecents (t'.recents.map (·.filter (!goes ·)))) := by
  have huses : ∀ w : Tables, (u.withRecents (w.recents.map (·.filter (!goes ·)))).uses =
      w.uses.filter (!goes ·) := by
    intro w
    unfold Tables.uses Tables.withRecents
    cases w.recents <;> rfl
  have hfor : ∀ owner key, ∀ r : RecentRow, r.isFor owner key = true →
      (goes r = true ↔ goes ⟨unnumbered, owner, key, .integer 0⟩ = true) := by
    intro owner key r hr
    obtain ⟨rfl, rfl⟩ := RecentRow.isFor_iff.mp hr
    rw [hgoes r ⟨unnumbered, r.owner, r.key, .integer 0⟩ rfl]
  refine ⟨rfl, ?_, fun owner key => ?_, ?_, ?_⟩
  · show (t'.recents.map _).isSome = (t.recents.map _).isSome
    rw [Option.isSome_map, Option.isSome_map, ht.there]
  · have huse := ht.uses owner key
    unfold Tables.useOf? at huse ⊢
    rw [huses, huses, find?_without (hfor owner key), find?_without (hfor owner key)]
    split
    · rfl
    · exact huse
  · rw [huses]
    exact ht.slots.sublist (List.filter_sublist.map _)
  · rw [huses]
    exact ht.slots'.sublist (List.filter_sublist.map _)

section Delete

variable {s : Setting}

/-- The row for a key, if there is one, goes from one ledger if it goes from the other. -/
theorem removal_isFor (hs : s.Fair) {t t' : Tables} (ht : t.Alike t') (owner : Int) (key : Cell) :
    Tally Eq (fun p p' => p.1 = p'.1 ∧ p.2 = t.uses.filter (!·.isFor owner key) ∧
        p'.2 = t'.uses.filter (!·.isFor owner key))
      (removal s .recents RecentRow.columns (·.isFor owner key) t.uses)
      (removal s .recents RecentRow.columns (·.isFor owner key) t'.uses) := by
  have huse := ht.uses owner key
  unfold Tables.useOf? at huse
  unfold removal
  dsimp only
  rw [filter_isFor ht.slots, filter_isFor ht.slots']
  cases h : t.uses.find? (·.isFor owner key) with
  | none =>
    rw [h, Option.map_none, Option.map_eq_none_iff] at huse
    rw [huse]
    exact .ok ⟨rfl, rfl, rfl⟩
  | some r =>
    rw [h, Option.map_some] at huse
    obtain ⟨r', hr', hused⟩ := Option.map_eq_some_iff.mp huse
    obtain ⟨howner, hkey⟩ := RecentRow.isFor_iff.mp (isFor_of_find? h)
    obtain ⟨howner', hkey'⟩ := RecentRow.isFor_iff.mp (isFor_of_find? hr')
    have hentry : r'.entry = r.entry := by
      unfold RecentRow.entry
      rw [howner', hkey', hused, howner, hkey]
    rw [hr']
    simp only [Option.toList_some, List.map_cons, List.map_nil, Setting.writeDeletes,
      hs.write_delete hentry]
    exact .bind_same (fun _ => rfl) _ fun _ _ => .ok ⟨rfl, rfl, rfl⟩

/-- In fair circumstances the use of a key is forgotten alike. -/
theorem deleteRecent_together (hs : s.Fair) (owner : Int) (key : Cell) :
    (deleteRecent s owner key).Together Eq (deleteRecent s owner key) := by
  intro t t' ht
  have hready : t'.ready s .recents .delete = t.ready s .recents .delete := by
    rw [ht.rest, Tables.withRecents_ready ht.there]
  have hgoes : ∀ r r' : RecentRow, r.slot = r'.slot → r.isFor owner key = r'.isFor owner key := by
    intro r r' h
    obtain ⟨howner, hkey⟩ := Prod.mk.inj h
    rw [RecentRow.isFor, RecentRow.isFor, howner, hkey]
  have hremoval := removal_isFor hs ht owner key
  have hleft := ht.without hgoes t
  simp only [deleteRecent, Statement.get_bind_apply, Statement.lift_bind_apply, hready]
  refine .bind_same (fun _ => rfl) _ fun _ _ => ht.recentRows.bind ?_
  intro rows rows' h
  rw [Tables.uses_eq h.1, Tables.uses_eq h.2] at hremoval
  rw [h.1, h.2] at hleft
  refine hremoval.bind ?_
  rintro ⟨count, left⟩ ⟨count', left'⟩ ⟨rfl, rfl, rfl⟩
  refine .ok ⟨rfl, ?_⟩
  rw [ht.rest]
  exact hleft

/-- Two causes are the same, or both are faults that strike the removal of a use. -/
def Setting.SameStrike (s : Setting) (e e' : StorageError) : Prop :=
  e = e' ∨ ∃ f ∈ s.faults, ∃ f' ∈ s.faults, (f.table = .recents ∧ f.event = .delete) ∧
    (f'.table = .recents ∧ f'.event = .delete) ∧ e = .struck f.message ∧ e' = .struck f'.message

theorem sameStrike_refl (s : Setting) (e : StorageError) : s.SameStrike e e := Or.inl rfl

theorem writeDeletes_eq_error {table : Table} {rows : List Columns} {e : StorageError}
    (haside : s.setAside = .ok ()) (h : s.writeDeletes table rows = .error e) :
    ∃ f ∈ s.faults, f.table = table ∧ f.event = .delete ∧ e = .struck f.message := by
  induction rows with
  | nil => cases h
  | cons row rows ih =>
    rcases except_bind_eq_error.mp h with h | ⟨_, -, h⟩
    · rcases except_bind_eq_error.mp h with h | ⟨_, -, h⟩
      · exact permit_eq_error h
      · rw [haside] at h
        cases h
    · exact ih h

/-- All uses of a user may go from one ledger if they may from the other. -/
theorem writeDeletes_belongings (hs : s.Fair) {t t' : Tables} (ht : t.Alike t') (user : Int)
    (h : s.writeDeletes .recents (t.belongings user .recents) = .ok ()) :
    s.writeDeletes .recents (t'.belongings user .recents) = .ok () := by
  have hall := writeDeletes_eq_ok.mp h
  refine writeDeletes_eq_ok.mpr fun row hrow => ?_
  obtain ⟨r', hr', rfl⟩ := List.mem_map.mp hrow
  obtain ⟨hmem', howner'⟩ := List.mem_filter.mp hr'
  obtain ⟨r, hmem, hentry⟩ := ht.symm.entry hmem'
  rw [← hs.write_delete hentry]
  refine hall _ (List.mem_map_of_mem (List.mem_filter.mpr ⟨hmem, ?_⟩))
  rw [(Prod.mk.inj hentry).1]
  exact howner'

/-- Where rows can be written, a cascade goes on over one database if it does over the other, and
where both are stopped, they are stopped by the same fault or by two that strike the removal of
uses. -/
theorem writeCascade_tally (hs : s.Fair) (haside : s.setAside = .ok ()) {t t' : Tables}
    (ht : t.Alike t') (user : Int) :
    Tally s.SameStrike Eq (t.writeCascade s [user]) (t'.writeCascade s [user]) := by
  have htable : ∀ table, Tally s.SameStrike Eq
      (s.writeDeletes table (t.belongings user table))
      (s.writeDeletes table (t'.belongings user table)) := by
    intro table
    have hother : table ≠ .recents → t'.belongings user table = t.belongings user table := by
      intro hne
      rw [ht.rest]
      cases table with
      | recents => exact absurd rfl hne
      | _ => rfl
    by_cases hrecents : table = .recents
    · subst hrecents
      cases h : s.writeDeletes .recents (t.belongings user .recents) with
      | ok u =>
        rw [writeDeletes_belongings hs ht user h]
        exact .ok rfl
      | error e =>
        cases h' : s.writeDeletes .recents (t'.belongings user .recents) with
        | ok u =>
          rw [writeDeletes_belongings hs ht.symm user h'] at h
          cases h
        | error e' =>
          obtain ⟨f, hf, htable, hevent, rfl⟩ := writeDeletes_eq_error haside h
          obtain ⟨f', hf', htable', hevent', rfl⟩ := writeDeletes_eq_error haside h'
          exact .error (Or.inr
            ⟨f, hf, f', hf', ⟨htable, hevent⟩, ⟨htable', hevent'⟩, rfl, rfl⟩)
    · rw [hother hrecents]
      exact .of_eq (sameStrike_refl s) (fun _ => rfl) _
  have hchildren : ∀ tables : List Table, Tally s.SameStrike Eq
      (tables.forM fun table => s.writeDeletes table (t.belongings user table))
      (tables.forM fun table => s.writeDeletes table (t'.belongings user table)) := by
    intro tables
    induction tables with
    | nil => exact .ok rfl
    | cons table tables ih => exact (htable table).bind fun _ _ _ => ih
  have hsame : t'.children = t.children := by rw [ht.rest]; rfl
  unfold Tables.writeCascade
  rw [hsame]
  exact (hchildren t.children).bind fun _ _ _ => .ok rfl

/-- A user goes from one database if it goes from the other. -/
theorem deleteUser_together (hs : s.Fair) (id : Int) :
    (deleteUser s id).Together s.SameStrike (deleteUser s id) := by
  intro t t' ht
  have hgoes : ∀ r r' : RecentRow, r.slot = r'.slot → (r.owner == id) = (r'.owner == id) :=
    fun r r' h => by rw [(Prod.mk.inj h).1]
  have hrefl := sameStrike_refl s
  have husers : t'.userRows = t.userRows := by rw [ht.rest]; rfl
  simp only [deleteUser, Statement.get_bind_apply, Statement.lift_bind_apply, ht.schema s, husers]
  refine .bind_same hrefl _ fun _ _ => .bind_same hrefl _ fun _ _ => .bind_same hrefl _
    fun rows _ => .bind_same hrefl _ fun p hp => ?_
  obtain ⟨count, left⟩ := p
  obtain ⟨hwrite, hcount, -⟩ := removal_eq_ok.mp hp
  dsimp only
  by_cases h0 : count = 0
  · rw [if_pos h0, if_pos h0]
    exact .ok ⟨rfl, ht⟩
  · rw [if_neg h0, if_neg h0]
    rw [Statement.lift_bind_apply, Statement.lift_bind_apply]
    -- the user's own row has been written before the cascade begins
    have haside : s.setAside = .ok () := by
      obtain ⟨r, hr⟩ := List.exists_mem_of_length_pos (Nat.pos_of_ne_zero (hcount ▸ h0))
      obtain ⟨hmem, hid⟩ := List.mem_filter.mp hr
      exact (Setting.write_eq_ok.mp (hwrite r hmem hid)).2
    refine (writeCascade_tally hs haside ht id).bind fun _ _ _ => .ok ⟨rfl, ?_⟩
    have hleft := ht.without hgoes { t.withoutBelongings (· == id) with users := some left }
    rw [ht.rest]
    exact hleft

end Delete

/-! ## Requests -/

/-- Ledgers that tell the same rank tags the same. -/
theorem ranksBefore_alike {t t' : Tables} (ht : t.Alike t') :
    ranksBefore t'.uses = ranksBefore t.uses := by
  have hlast : ∀ r : TagRow, lastUse? t'.uses r = lastUse? t.uses r :=
    fun r => ht.uses r.owner r.key
  funext a b
  unfold ranksBefore
  rw [hlast a, hlast b]

section Questions

variable {s : Setting} {E : Refusal → Refusal → Prop} {c c' : Connection}

theorem rankTags_concur (hE : ∀ e, E e e) (hc : c.Alike c') (owner : UserId) :
    Operation.Concur E Eq (rankTags s owner c) (rankTags s owner c') := by
  refine inspect_concur hE hc ?_
  have htags : c'.tables.tagsOf owner = c.tables.tagsOf owner := by rw [hc.tables.rest]; rfl
  have hranks := ranksBefore_alike hc.tables
  have hrows := hc.tables.recentRows
  rw [htags]
  generalize c.tables.recentRows = rows at hrows ⊢
  generalize c'.tables.recentRows = rows' at hrows ⊢
  cases hrows with
  | error h => rw [h]
  | ok h =>
    rw [Tables.uses_eq h.1, Tables.uses_eq h.2] at hranks
    show fromStorage (c.tables.tagsOf owner >>= fun tags => _) = _
    rw [hranks]
    rfl

theorem findUse_concur (hE : ∀ e, E e e) (hc : c.Alike c') (owner : UserId) (key : String) :
    Operation.Concur E Eq (findUse s owner key c) (findUse s owner key c') := by
  refine inspect_concur hE hc ?_
  have huse := hc.tables.uses (wide owner) (.text key)
  have hrows := hc.tables.recentRows
  unfold Tables.useOf? at huse
  generalize c.tables.recentRows = rows at hrows ⊢
  generalize c'.tables.recentRows = rows' at hrows ⊢
  cases hrows with
  | error h => rw [h]
  | @ok rows rows' h =>
    rw [Tables.uses_eq h.1, Tables.uses_eq h.2] at huse
    dsimp only
    cases hr : rows.find? (·.isFor (wide owner) (.text key)) with
    | none =>
      rw [hr, Option.map_none, Option.map_eq_none_iff] at huse
      rw [huse]
    | some r =>
      rw [hr, Option.map_some] at huse
      obtain ⟨r', hr', hused⟩ := Option.map_eq_some_iff.mp huse
      rw [hr']
      dsimp only
      rw [hused]

end Questions

/-- The request with another way of recording named, if it records uses. -/
def Request.recordBy (strategy : Option Dialect.Strategy) : Request → Request
  | recordUse _ owner key moment => recordUse strategy owner key moment
  | recordUses _ owner keys moment => recordUses strategy owner keys moment
  | r => r

/-- Two refusals of a request are the same, unless it removes a user, where both may be faults that
strike the removal of a use, or records a use. -/
def Request.SameRefusal (s : Setting) : Request → Refusal → Refusal → Prop
  | removeUser _ => Refusal.SameUpTo s.SameStrike
  | recordUse _ _ _ _ => Refusal.SameUpTo s.SameBar
  | _ => Eq

theorem Request.sameRefusal_refl (s : Setting) (r : Request) (e : Refusal) :
    r.SameRefusal s e e := by
  cases r with
  | removeUser id => exact Or.inl rfl
  | recordUse strategy owner key moment => exact Or.inl rfl
  | _ => rfl

/-- Two replies are the same, or tell the same uses that were left out, for causes that are
related. -/
inductive Reply.Same (s : Setting) : Reply → Reply → Prop where
  /-- The replies are the same. -/
  | same (a : Reply) : Same s a a
  /-- The same uses were left out. -/
  | unrecorded {us us' : List Unrecorded} (h : List.Forall₂ (Unrecorded.Same s) us us') :
      Same s (.unrecorded us) (.unrecorded us')

/-- In fair circumstances a request is answered the same by databases that are alike, in whatever
way uses are recorded, and leaves them alike. -/
theorem run_concur {s : Setting} (hs : s.Fair) {own own' : Dialect.Strategy}
    {x x' : Option Dialect.Strategy} (hx : Akin (x.getD own) (x'.getD own')) (r : Request)
    {c c' : Connection} (hc : c.Alike c') (hk : c.tables.Keyed) (hk' : c'.tables.Keyed)
    (hplain : c.known.Plain) :
    Operation.Concur (r.SameRefusal s) (Reply.Same s) ((r.recordBy x).run s own c)
      ((r.recordBy x').run s own' c') := by
  have hE := r.sameRefusal_refl s
  cases r with
  | createUser name =>
    refine .map .same _ ?_
    unfold createUser
    split
    · exact .refused hE _ hc
    · exact autocommit_concur hE true hc rfl rfl ((Steps.Together.bind
        (.tryWith hE _ _ (insertUser_aloof s _ _).together) fun _ => .pure _) _ _ hc.tables)
  | removeUser id =>
    refine .map .same _ (.judge hE _ (autocommit_concur hE true hc rfl rfl ?_))
    exact Steps.TogetherAt.tryWith
      (fun e e' he => Or.inr ⟨e, e', he, rfl, rfl⟩)
      (deleteUser_together hs _ _ _ hc.tables)
  | createDashboard draft =>
    refine .map .same _ ?_
    unfold createDashboard
    split
    · exact .refused hE _ hc
    · exact transactionIf_concur hE _ hc ((Steps.Together.bind (.ask hE fun _ _ => rfl)
        fun _ => .bind (.tryWith hE _ _ (insertDashboard_aloof s _ _ _ _).together)
          fun _ => .pure _) _ _ hc.tables)
  | moveDashboard owner id d =>
    refine .map .same _ (transactionIf_concur hE _ hc ((Steps.Together.bind (.ask hE fun _ _ => rfl)
      fun ids => ?_) _ _ hc.tables))
    split
    · exact .pure false
    · exact .bind (writePositions_together hE s owner _ 0) fun _ => .pure true
  | reindexDashboards owner =>
    exact .map .same _ (transactionIf_concur hE _ hc (renumber_together hE s owner _ _ hc.tables))
  | removeDashboard owner id =>
    refine .map .same _ (transactionFrom_concur hE hc
      (.bind (.tryWith hE _ _ (deleteDashboard_aloof s _ _).together) fun count => ?_))
    split
    · exact .refuse hE _
    · exact renumber_together hE s owner
  | createTag tag =>
    refine .map .same _ ?_
    unfold createTag
    split
    · exact .refused hE _ hc
    · exact autocommit_concur hE true hc rfl rfl ((Steps.Together.bind
        (.tryWith hE _ _ (insertTag_aloof s _).together) fun _ => .pure _) _ _ hc.tables)
  | removeTag owner key =>
    refine .map .same _ (transactionFrom_concur hE hc
      (.bind (.tryWith hE _ _ (deleteTag_aloof s _ _).together) fun count => ?_))
    split
    · exact .refuse hE _
    · exact .bind (.tryWith hE _ _ (deleteRecent_together hs _ _)) fun _ => .pure ()
  | recordUse strategy owner key moment =>
    exact .map .same _ (recordUse_concur hs hx owner key moment hc hk hk' hplain)
  | recordUses strategy owner keys moment =>
    obtain ⟨hanswer, hleft⟩ := recordUses_concur hs hx owner moment keys hc hk hk' hplain
    exact ⟨.ok (.unrecorded hanswer), hleft⟩
  | findUser id => exact .map .same _ (inspect_concur hE hc (by rw [hc.tables.rest]; rfl))
  | findDashboard owner id =>
    exact .map .same _ (inspect_concur hE hc (by rw [hc.tables.rest]; rfl))
  | listDashboards owner => exact .map .same _ (inspect_concur hE hc (by rw [hc.tables.rest]; rfl))
  | findTag owner key => exact .map .same _ (inspect_concur hE hc (by rw [hc.tables.rest]; rfl))
  | listTags owner => exact .map .same _ (inspect_concur hE hc (by rw [hc.tables.rest]; rfl))
  | rankTags owner => exact .map .same _ (rankTags_concur hE hc owner)
  | findUse owner key => exact .map .same _ (findUse_concur hE hc owner key)

end Pinboard.Store
