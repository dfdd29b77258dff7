import Pinboard.ConfigFile
import Pinboard.Proofs.InstantText
import Pinboard.Proofs.Numerals
import Pinboard.Proofs.Spelling

/-!
# Round trips through JSON

Everything the library writes as JSON it reads back as it was, but for leap seconds that do not end
a minute: these are read back as what was written for them (`TagUse.asWritten`). A record that was
written names its fields one after another, and each fills the slot of its own (`Fills`); the rest
is what is known of strings, numbers, choices and instants.
-/

namespace Pinboard.Json

open Reader

/-! ## Members -/

variable {σ α : Type} {fields : List (Field σ)} {s s' : σ} {members : List (String × Value)}

/-- The text of a member of an object. -/
def memberChars (m : String × Value) : List Char := textChars m.1 ++ ':' :: m.2.chars

theorem objectChars_cons (m : String × Value) (members : List (String × Value)) :
    objectChars (m :: members) =
      memberChars m ++ members.flatMap fun m => ',' :: memberChars m := by
  induction members generalizing m with
  | nil => simp [objectChars, memberChars]
  | cons m' members ih => simp [objectChars, ih, memberChars]

/-- Members fill the fields of a record, one after another. -/
inductive Fills (fields : List (Field σ)) : List (String × Value) → σ → σ → Prop where
  /-- No member is left. -/
  | nil (s : σ) : Fills fields [] s s
  /-- A member fills the empty slot of its field, and the others follow. -/
  | cons {key : String} {v : Value} {field : Field σ} {members : List (String × Value)}
      {s s' s'' : σ} (find : fields.find? (·.name == key) = some field)
      (free : field.filled s = false) (takes : Takes (field.read s) v.chars s')
      (rest : Fills fields members s' s'') : Fills fields ((key, v) :: members) s s''

namespace Reader

theorem delimited_members (members : List (String × Value)) (rest : List Char) :
    Delimited ((members.flatMap fun m => ',' :: memberChars m) ++ '\x7d' :: rest) := by
  cases members with
  | nil => exact .cons (by decide) _
  | cons m members => exact .cons (by decide) _

/-- A written member is read into its field, and then the rest are. -/
theorem yields_membersFrom_fill {key : String} {v : Value} {field : Field σ} {first : Bool}
    {lead more rest : List Char} {s'' : σ} (hlead : Lead first lead)
    (hfind : fields.find? (·.name == key) = some field) (hfree : field.filled s = false)
    (htakes : Takes (field.read s) v.chars s') (hmore : Delimited more)
    (h : Yields (membersFrom fields false s') more s'' rest) :
    Yields (membersFrom fields first s) (lead ++ (memberChars (key, v) ++ more)) s'' rest := by
  have hmember := yields_member_field hlead (stringOf_textChars key) (List.forall_mem_nil _) hfind
    hfree (htakes.yields hmore)
  rw [List.nil_append, ← List.cons_append, ← List.append_assoc (textChars key)] at hmember
  exact yields_membersFrom_cons hmember (by simp [memberChars]; omega) h

theorem yields_membersFrom_rest (h : Fills fields members s s') (rest : List Char) :
    Yields (membersFrom fields false s)
      ((members.flatMap fun m => ',' :: memberChars m) ++ '\x7d' :: rest) s' ('\x7d' :: rest) := by
  induction h with
  | nil s => exact yields_membersFrom_end false s (List.forall_mem_nil _) rest
  | cons hfind hfree htakes _ ih =>
    have hlead : Lead false [','] := .next (List.forall_mem_nil _) (List.forall_mem_nil _)
    rw [List.flatMap_cons, List.append_assoc]
    exact yields_membersFrom_fill hlead hfind hfree htakes (delimited_members _ rest) ih

/-- The members of an object are read into the fields. -/
theorem yields_membersFrom_all (h : Fills fields members s s') (rest : List Char) :
    Yields (membersFrom fields true s) (objectChars members ++ '\x7d' :: rest) s'
      ('\x7d' :: rest) := by
  cases h with
  | nil => exact yields_membersFrom_end true s (List.forall_mem_nil _) rest
  | cons hfind hfree htakes hrest =>
    have hlead : Lead true [] := .first (List.forall_mem_nil _)
    rw [objectChars_cons, List.append_assoc]
    exact yields_membersFrom_fill hlead hfind hfree htakes (delimited_members _ rest)
      (yields_membersFrom_rest hrest rest)

/-- A record is read back from an object whose members fill its fields. -/
theorem takes_record {shape : Shape σ α} {a : α} (h : Fills shape.fields members shape.start s)
    (hfinish : shape.finish s = .ok a) : Takes (record shape) (Value.object members).chars a := by
  refine .of_yields fun rest _ => ?_
  have hchars : (Value.object members).chars ++ rest =
      '\x7b' :: (objectChars members ++ '\x7d' :: rest) := by
    simp [Value.chars]
  rw [hchars]
  exact yields_record (yields_membersFrom_all h rest) hfinish

/-- A reader that takes what was written reads the whole text of it. -/
theorem whole_of_takes {r : Reader α} {v : Value} {a : α} (h : Takes r v.chars a) :
    whole r v.render = .ok a := by
  have hread := h [] ⟨1, 0⟩ .nil
  rw [List.append_nil] at hread
  have hall : (do let a ← r; blanks; pure a : Reader α) (Cursor.ofText v.render) =
      .ok (a, ⟨[], v.chars.foldl Position.after ⟨1, 0⟩⟩) := by
    unfold Cursor.ofText Value.render
    rw [String.toList_ofList]
    exact (bind_of_ok hread).trans rfl
  unfold whole
  rw [hall]

end Reader

end Pinboard.Json

namespace Pinboard

open Json Reader

/-! ## Choices -/

theorem takes_direction (d : Direction) : Takes Direction.reader d.toJson.chars d :=
  takes_choice (by cases d <;> decide)

theorem takes_tagKind (k : TagKind) : Takes TagKind.reader k.toJson.chars k :=
  takes_choice (by cases k <;> decide)

theorem takes_dialect (d : Dialect) : Takes Dialect.reader d.toJson.chars d :=
  takes_choice (by cases d <;> decide)

theorem takes_failure (f : Failure) : Takes Failure.reader f.toJson.chars f := by
  obtain ⟨kind, text⟩ := f
  have hkind : ([FailureKind.notFound, .invalidInput, .conflict, .internal].map fun k =>
      (k.name, Failure.mk k)).lookup kind.name = some (Failure.mk kind) := by
    cases kind <;> rfl
  exact takes_choiceWithText hkind

theorem takes_instant (t : Time.Instant) :
    Takes Time.Instant.reader t.toJson.chars t.asWritten := by
  refine takes_stringWith ?_
  unfold Time.Instant.render
  rw [String.toList_ofList, t.ofText?_text]

/-! ## Records -/

theorem takes_user (u : User) : Takes User.reader u.toJson.chars u := by
  have hid := (takes_uint32 u.id).map fun v => ({ id := some v } : UserSlots)
  have hname := (takes_string "a string" u.name).map fun v =>
    ({ id := some u.id, name := some v } : UserSlots)
  exact takes_record (.cons rfl rfl hid (.cons rfl rfl hname (.nil _))) rfl

theorem takes_dashboard (d : Dashboard) : Takes Dashboard.reader d.toJson.chars d := by
  have hid := (takes_uint32 d.id).map fun v => ({ id := some v } : DashboardSlots)
  have howner := (takes_uint32 d.owner).map fun v =>
    ({ id := some d.id, owner := some v } : DashboardSlots)
  have hname := (takes_string "a string" d.name).map fun v =>
    ({ id := some d.id, owner := some d.owner, name := some v } : DashboardSlots)
  have horder := (takes_int32 d.order).map fun v =>
    ({ id := some d.id, owner := some d.owner, name := some d.name,
       order := some v } : DashboardSlots)
  exact takes_record (.cons rfl rfl hid (.cons rfl rfl howner (.cons rfl rfl hname
    (.cons rfl rfl horder (.nil _))))) rfl

theorem takes_tag (t : Tag) : Takes Tag.reader t.toJson.chars t := by
  have howner := (takes_uint32 t.owner).map fun v => ({ owner := some v } : TagSlots)
  have hkey := (takes_string "a string" t.key).map fun v =>
    ({ owner := some t.owner, key := some v } : TagSlots)
  have hcolor := (takes_string "a string" t.color).map fun v =>
    ({ owner := some t.owner, key := some t.key, color := some v } : TagSlots)
  have hkind := (takes_tagKind t.kind).map fun v =>
    ({ owner := some t.owner, key := some t.key, color := some t.color,
       kind := some v } : TagSlots)
  exact takes_record (.cons rfl rfl howner (.cons rfl rfl hkey (.cons rfl rfl hcolor
    (.cons rfl rfl hkind (.nil _))))) rfl

/-- A use with the moment that its text stands for. -/
def TagUse.asWritten (u : TagUse) : TagUse := { u with lastUsed := u.lastUsed.asWritten }

theorem TagUse.asWritten_eq_iff {u : TagUse} : u.asWritten = u ↔ u.lastUsed.Shown := by
  rw [← Time.Instant.asWritten_eq_iff]
  exact ⟨congrArg TagUse.lastUsed, fun h => by rw [asWritten, h]⟩

theorem TagUse.toJson_asWritten (u : TagUse) : u.asWritten.toJson = u.toJson := by
  have htext := u.lastUsed.text_asWritten
  unfold toJson asWritten Time.Instant.toJson Time.Instant.render
  rw [htext]

theorem takes_tagUse (u : TagUse) : Takes TagUse.reader u.toJson.chars u.asWritten := by
  have howner := (takes_uint32 u.owner).map fun v => ({ owner := some v } : TagUseSlots)
  have hkey := (takes_string "a string" u.key).map fun v =>
    ({ owner := some u.owner, key := some v } : TagUseSlots)
  have hmoment := (takes_instant u.lastUsed).map fun v =>
    ({ owner := some u.owner, key := some u.key, lastUsed := some v } : TagUseSlots)
  exact takes_record (.cons rfl rfl howner (.cons rfl rfl hkey (.cons rfl rfl hmoment
    (.nil _)))) rfl

theorem takes_databaseConfig (c : DatabaseConfig) :
    Takes DatabaseConfig.reader c.toJson.chars c := by
  have hpath := (takes_string "path string" c.path).map fun v =>
    ({ path := some v } : DatabaseSlots)
  have hdialect := (takes_dialect c.dialect).map fun v =>
    ({ path := some c.path, dialect := some v } : DatabaseSlots)
  have htimeout := (takes_uint64 c.busyTimeout).map fun v =>
    ({ path := some c.path, dialect := some c.dialect, busyTimeout := some v } : DatabaseSlots)
  exact takes_record (.cons rfl rfl hpath (.cons rfl rfl hdialect (.cons rfl rfl htimeout
    (.nil _)))) rfl

theorem takes_logConfig (c : LogConfig) : Takes LogConfig.reader c.toJson.chars c := by
  have hdir := (takes_string "path string" c.dir).map fun v => ({ dir := some v } : LogSlots)
  have hname := (takes_string "a string" c.appName).map fun v =>
    ({ dir := some c.dir, appName := some v } : LogSlots)
  exact takes_record (.cons rfl rfl hdir (.cons rfl rfl hname (.nil _))) rfl

theorem takes_config (c : Config) : Takes Config.reader c.toJson.chars c := by
  have hdatabase := (takes_databaseConfig c.database).map fun v =>
    ({ database := some v } : ConfigSlots)
  have hlog := (takes_logConfig c.log).map fun v =>
    ({ database := some c.database, log := some v } : ConfigSlots)
  exact takes_record (.cons rfl rfl hdatabase (.cons rfl rfl hlog (.nil _))) rfl

/-! ## The whole library -/

/-- Whatever is written is read back, by the reader that belongs to it. -/
def RoundTrips {α : Type} (write : α → Value) (r : Reader α) : Prop :=
  ∀ a, whole r (write a).render = .ok a

/-- Everything that the library writes as JSON is read back as exactly what it was: records with any
texts and numbers, all choices, all failures, and all settings. A use is read back as it was if its
moment is not in a leap second other than at the end of a minute, and otherwise with the moment that
its text stands for. What is read back gives the same text again. -/
theorem json_round_trip :
    RoundTrips User.toJson User.reader ∧ RoundTrips Dashboard.toJson Dashboard.reader ∧
      RoundTrips Tag.toJson Tag.reader ∧
      (∀ u : TagUse, whole TagUse.reader u.toJson.render = .ok u.asWritten ∧
        (u.asWritten = u ↔ u.lastUsed.Shown) ∧ u.asWritten.toJson.render = u.toJson.render) ∧
      RoundTrips TagKind.toJson TagKind.reader ∧ RoundTrips Direction.toJson Direction.reader ∧
      RoundTrips Dialect.toJson Dialect.reader ∧ RoundTrips Failure.toJson Failure.reader ∧
      RoundTrips Config.toJson Config.reader ∧
      ∀ c : Config, Config.ofText c.toJson.render = .ok c := by
  have hconfig : RoundTrips Config.toJson Config.reader := fun c => whole_of_takes (takes_config c)
  have huse : ∀ u : TagUse, whole TagUse.reader u.toJson.render = .ok u.asWritten ∧
      (u.asWritten = u ↔ u.lastUsed.Shown) ∧ u.asWritten.toJson.render = u.toJson.render :=
    fun u => ⟨whole_of_takes (takes_tagUse u), TagUse.asWritten_eq_iff, by rw [u.toJson_asWritten]⟩
  refine ⟨fun u => whole_of_takes (takes_user u), fun d => whole_of_takes (takes_dashboard d),
    fun t => whole_of_takes (takes_tag t), huse,
    fun k => whole_of_takes (takes_tagKind k), fun d => whole_of_takes (takes_direction d),
    fun d => whole_of_takes (takes_dialect d), fun f => whole_of_takes (takes_failure f),
    hconfig, fun c => ?_⟩
  unfold Config.ofText
  rw [hconfig c]

/-- Half a second into a leap second after the first second 30, a use is written like half a second
past second 31, and read back as that. -/
theorem leap_second_within_minute_not_read_back :
    let u : TagUse := ⟨1, "a", ⟨30, 1500000000, by decide⟩⟩
    let v : TagUse := ⟨1, "a", ⟨31, 500000000, by decide⟩⟩
    u.toJson.render = v.toJson.render ∧ whole TagUse.reader u.toJson.render = .ok v ∧ v ≠ u := by
  intro u v
  have hwritten : u.asWritten = v := by decide
  exact ⟨by rw [← hwritten, u.toJson_asWritten], hwritten ▸ whole_of_takes (takes_tagUse u),
    by decide⟩

end Pinboard
