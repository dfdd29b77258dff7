import Pinboard.Proofs.Outcome

/-!
# What is reported as a conflict

Something that cannot be made because it is there already is reported as a conflict. For a tag the
rules that stand in the way are not told apart: that its owner is not there is reported as if its
key were taken. A dashboard for an owner that is not there is a failure of the database.
-/

namespace Pinboard.Store

/-- A tag is defined for an owner with a key. -/
def Tables.HasTag (t : Tables) (owner : UserId) (key : String) : Prop :=
  ∃ r ∈ t.definitions, r.owner = wide owner ∧ r.key = .text key

instance (t : Tables) (owner : UserId) (key : String) : Decidable (t.HasTag owner key) :=
  inferInstanceAs (Decidable (∃ r ∈ t.definitions, r.owner = wide owner ∧ r.key = .text key))

/-- The answer is a refusal that is reported as a conflict. -/
def IsConflict {α : Type} (answer : Except Refusal α) : Prop :=
  ∃ r, answer = .error r ∧ r.failure.kind = .conflict

section Conflicts

variable {c : Connection}

theorem any_iff_hasTag {t : Tables} {owner : UserId} {key : String} :
    (t.definitions.any fun r => r.owner == wide owner && r.key == .text key) = true ↔
      t.HasTag owner key := by
  simp only [Tables.HasTag, List.any_eq_true, Bool.and_eq_true, beq_iff_eq]

theorem isConflict_error {α : Type} {r : Refusal} :
    IsConflict (.error r : Except Refusal α) ↔ r.failure.kind = .conflict := by
  constructor
  · rintro ⟨r', h, hkind⟩
    cases h
    exact hkind
  · intro hkind
    exact ⟨r, rfl, hkind⟩

theorem not_isConflict_ok {α : Type} {a : α} : ¬ IsConflict (.ok a) := by
  rintro ⟨r, h, -⟩
  cases h

/-- Making a tag is a conflict exactly if its key is taken or its owner is not there, and then
nothing changes. Otherwise exactly this tag is added, behind all others. -/
theorem createTag_conflict_iff (hc : c.Steady) (tag : Tag) (hkey : Text.allBlank tag.key = false) :
    (IsConflict (createTag .clear tag c).1 ↔
      c.tables.HasTag tag.owner tag.key ∨ ¬ c.tables.HasUser (wide tag.owner)) ∧
    (c.tables.HasTag tag.owner tag.key ∨ ¬ c.tables.HasUser (wide tag.owner) →
      (createTag .clear tag c).1 = .error (.tagExists tag.key) ∧
        (createTag .clear tag c).2.tables = c.tables) ∧
    (c.tables.HasUser (wide tag.owner) → ¬ c.tables.HasTag tag.owner tag.key →
      (createTag .clear tag c).1 = .ok tag ∧
        ∃ n, (createTag .clear tag c).2.tables = { c.tables with
          tags := some (c.tables.definitions ++ [⟨n, wide tag.owner, .text tag.key,
            .text tag.color, .text tag.kind.name⟩]) }) := by
  have houtcome := createTag_outcome hc tag
  rw [if_neg (by rw [hkey]; exact Bool.false_ne_true)] at houtcome
  by_cases htaken : c.tables.HasTag tag.owner tag.key
  · rw [if_pos (any_iff_hasTag.mpr htaken)] at houtcome
    obtain ⟨hanswer, hleft⟩ := Prod.mk.inj houtcome
    rw [hanswer, isConflict_error]
    exact ⟨⟨fun _ => Or.inl htaken, fun _ => rfl⟩, fun _ => ⟨rfl, hleft⟩,
      fun _ hfree => absurd htaken hfree⟩
  · rw [if_neg (mt any_iff_hasTag.mp htaken)] at houtcome
    by_cases howner : c.tables.HasUser (wide tag.owner)
    · rw [if_pos howner] at houtcome
      obtain ⟨hanswer, hleft⟩ := Prod.mk.inj houtcome
      have hnone : ¬ (c.tables.HasTag tag.owner tag.key ∨
          ¬ c.tables.HasUser (wide tag.owner)) := by
        rintro (h | h)
        · exact htaken h
        · exact h howner
      rw [hanswer]
      exact ⟨iff_of_false not_isConflict_ok hnone, fun h => absurd h hnone,
        fun _ _ => ⟨rfl, _, hleft⟩⟩
    · rw [if_neg howner] at houtcome
      obtain ⟨hanswer, hleft⟩ := Prod.mk.inj houtcome
      rw [hanswer, isConflict_error]
      exact ⟨⟨fun _ => Or.inr howner, fun _ => rfl⟩, fun _ => ⟨rfl, hleft⟩,
        fun h _ => absurd h howner⟩

/-- A user has the key "a", and gets the key "b". -/
theorem createTag_conflict_iff_of_second_key :
    let t : Tables := { Tables.fresh with
      users := some [⟨1, .text "u"⟩]
      tags := some [⟨1, 1, .text "a", .text "", .text "novalue"⟩] }
    let c : Connection := ⟨t, {}, 0⟩
    c.Steady ∧ IsConflict (createTag .clear ⟨1, "a", "red", .noValue⟩ c).1 ∧
      (createTag .clear ⟨1, "b", "red", .singleValue⟩ c).1 =
        .ok ⟨1, "b", "red", .singleValue⟩ := by
  intro t c
  have hc : c.Steady := ⟨fun table => by cases table <;> decide, List.forall_mem_nil _⟩
  obtain ⟨htaken, -, -⟩ := createTag_conflict_iff hc ⟨1, "a", "red", .noValue⟩ (by decide)
  obtain ⟨-, -, hfree⟩ :=
    createTag_conflict_iff hc ⟨1, "b", "red", .singleValue⟩ (by decide)
  exact ⟨hc, htaken.mpr (Or.inl (by decide)), (hfree (by decide) (by decide)).1⟩

/-- A tag for a user that is not there is a conflict, though no tag is defined at all. -/
theorem createTag_conflict_without_owner :
    let c : Connection := ⟨.fresh, {}, 0⟩
    c.tables.definitions = [] ∧ ¬ c.tables.HasUser (wide 7) ∧
      (createTag .clear ⟨7, "a", "", .noValue⟩ c).1.mapError (·.failure) =
        .error ⟨.conflict, "Tag a already exists"⟩ := by
  intro c
  exact ⟨rfl, by decide, rfl⟩

/-- Making a user is a conflict exactly if its name is taken. -/
theorem createUser_conflict_iff (hc : c.Calm) {name : String} (hname : Text.allBlank name = false)
    {n : Int} (hn : nextNumber (c.tables.people.map (·.id)) c.tables.lastUser = .ok n) :
    IsConflict (createUser .clear name c).1 ↔ ∃ r ∈ c.tables.people, r.name = .text name := by
  have houtcome := hc.createUser_outcome name hn
  rw [if_neg (by rw [hname]; exact Bool.false_ne_true)] at houtcome
  have htaken : c.tables.people.any (·.name == .text name) = true ↔
      ∃ r ∈ c.tables.people, r.name = .text name := by
    simp only [List.any_eq_true, beq_iff_eq]
  by_cases h : c.tables.people.any (·.name == .text name) = true
  · rw [if_pos h] at houtcome
    rw [(Prod.mk.inj houtcome).1, isConflict_error]
    exact ⟨fun _ => htaken.mp h, fun _ => rfl⟩
  · rw [if_neg h] at houtcome
    rw [(Prod.mk.inj houtcome).1]
    exact iff_of_false not_isConflict_ok (mt htaken.mpr h)

/-- A dashboard for an owner that is not there is never a conflict: the database refuses it. -/
theorem createDashboard_without_owner (hc : c.Calm) {draft : Dashboard}
    (hname : Text.allBlank draft.name = false) (howner : ¬ c.tables.HasUser (wide draft.owner))
    {n : Int} (hn : nextNumber (c.tables.boards.map (·.id)) c.tables.lastDashboard = .ok n) :
    ∃ e, (createDashboard .clear draft c).1 = .error (.storage e) ∧
      (createDashboard .clear draft c).2.tables = c.tables := by
  have houtcome := createDashboard_outcome (hc.tables.mem_present _) (hc.tables.mem_present _)
    draft hn
  rw [if_neg (by rw [hname]; exact Bool.false_ne_true)] at houtcome
  cases horder : c.tables.nextOrder draft.owner with
  | error e =>
    rw [horder] at houtcome
    obtain ⟨hanswer, hleft⟩ := Prod.mk.inj houtcome
    exact ⟨e, hanswer, hleft⟩
  | ok order =>
    rw [horder] at houtcome
    dsimp only at houtcome
    rw [if_neg howner] at houtcome
    obtain ⟨hanswer, hleft⟩ := Prod.mk.inj houtcome
    exact ⟨.noParentRow, hanswer, hleft⟩

end Conflicts

end Pinboard.Store
