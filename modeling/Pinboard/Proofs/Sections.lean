import Mathlib.Data.Finset.Basic
import Pinboard.Proofs.Spelling

/-!
# Records with some of their fields

An object that gives some fields of a record, each once and in any order, among unknown fields of
any kind (`Gives`), fills exactly the slots of these fields. The proof goes along the members: the
slots that are filled so far and the fields that are still to come always make up the same set.
-/

namespace Pinboard.Json

/-- The members give each of these fields once, with a text that stands for its value. All other
members have names that are no field's, and values of any form. -/
structure Gives {φ : Type} [DecidableEq φ] (name : φ → String) (Stands : φ → List Char → Prop)
    (given : Finset φ) (members : List (String × List Char)) : Prop where
  /-- A field is given once, or not at all. -/
  once : ∀ f, (members.map (·.1)).count (name f) = if f ∈ given then 1 else 0
  /-- What is given for a field stands for its value. -/
  value : ∀ f, ∀ m ∈ members, m.1 = name f → Stands f m.2
  /-- Whatever else is given is some value. -/
  unknown : ∀ m ∈ members, (∀ f, m.1 ≠ name f) → JsonText m.2

/-- An object that gives exactly these fields. -/
def RecordText {φ : Type} [DecidableEq φ] (name : φ → String) (Stands : φ → List Char → Prop)
    (given : Finset φ) (cs : List Char) : Prop :=
  ∃ members, ObjectText members cs ∧ Gives name Stands given members

variable {σ φ α : Type} [DecidableEq φ] {fields : List (Field σ)} {name : φ → String}
  {Stands : φ → List Char → Prop} {slots : Finset φ → σ} {given : Finset φ} {f : φ}
  {n : String} {v cs rest more : List Char} {members : List (String × List Char)}

namespace Gives

theorem nil (h : Gives name Stands given []) : given = ∅ := by
  refine Finset.eq_empty_of_forall_notMem fun f hf => ?_
  have honce := h.once f
  rw [if_pos hf] at honce
  cases honce

theorem rest_value (h : Gives name Stands given ((n, v) :: members)) :
    ∀ f, ∀ m ∈ members, m.1 = name f → Stands f m.2 :=
  fun f m hm => h.value f m (List.mem_cons_of_mem _ hm)

theorem rest_unknown (h : Gives name Stands given ((n, v) :: members)) :
    ∀ m ∈ members, (∀ f, m.1 ≠ name f) → JsonText m.2 :=
  fun m hm => h.unknown m (List.mem_cons_of_mem _ hm)

/-- The first member is a field's: the field is one of those to come, and does not come again. -/
theorem field (h : Gives name Stands given ((name f, v) :: members))
    (hname : Function.Injective name) :
    f ∈ given ∧ Stands f v ∧ Gives name Stands (given.erase f) members := by
  have hf := h.once f
  rw [List.map_cons, List.count_cons_self] at hf
  have hmem : f ∈ given := by
    by_contra hnot
    rw [if_neg hnot] at hf
    cases hf
  rw [if_pos hmem] at hf
  refine ⟨hmem, h.value f _ List.mem_cons_self rfl, ⟨?_, h.rest_value, h.rest_unknown⟩⟩
  intro g
  by_cases hg : g = f
  · subst hg
    rw [if_neg (Finset.notMem_erase _ _)]
    omega
  · have honce := h.once g
    rw [List.map_cons, List.count_cons_of_ne (fun he => hg (hname he).symm)] at honce
    rw [honce]
    simp [Finset.mem_erase, hg]

/-- The first member is unknown: it holds some value, and the rest give the same fields. -/
theorem other (h : Gives name Stands given ((n, v) :: members)) (hn : ∀ f, n ≠ name f) :
    JsonText v ∧ Gives name Stands given members := by
  refine ⟨h.unknown _ List.mem_cons_self hn, ⟨?_, h.rest_value, h.rest_unknown⟩⟩
  intro g
  have honce := h.once g
  rwa [List.map_cons, List.count_cons_of_ne (hn g)] at honce

end Gives

/-- Each field reads its value into a slot of its own. -/
structure Filling (fields : List (Field σ)) (name : φ → String) (Stands : φ → List Char → Prop)
    (slots : Finset φ → σ) : Prop where
  /-- No two fields share a name. -/
  injective : Function.Injective name
  /-- A field is found by its name, and reads its value into its slot, if that is empty. -/
  find : ∀ f, ∃ field, fields.find? (·.name == name f) = some field ∧ ∀ done, f ∉ done →
    field.filled (slots done) = false ∧ SkipsGap (field.read (slots done)) ∧
      ∀ cs rest, Stands f cs → Delimited rest →
        Yields (field.read (slots done)) (cs ++ rest) (slots (insert f done)) rest
  /-- There are no other fields. -/
  named : ∀ field ∈ fields, ∃ f, field.name = name f

theorem Filling.find_unknown (h : Filling fields name Stands slots) (hn : ∀ f, n ≠ name f) :
    fields.find? (·.name == n) = none := by
  rw [List.find?_eq_none]
  intro field hfield heq
  obtain ⟨f, hf⟩ := h.named field hfield
  exact hn f ((beq_iff_eq.mp heq).symm.trans hf)

/-- A field with a slot that is still empty takes into it what the slot's reader yields. -/
theorem fits_slot {β : Type} {get : σ → Option β} {set : σ → β → σ} {r : Reader β} {key : String}
    {s s' : σ} {Form : List Char → Prop} (b : β) (hfree : get s = none) (hset : set s b = s')
    (hgap : SkipsGap r)
    (hread : ∀ cs rest, Form cs → Delimited rest → Yields r (cs ++ rest) b rest) :
    (Field.slot key get set r).filled s = false ∧ SkipsGap ((Field.slot key get set r).read s) ∧
      ∀ cs rest, Form cs → Delimited rest →
        Yields ((Field.slot key get set r).read s) (cs ++ rest) s' rest := by
  refine ⟨?_, hgap.bind _, ?_⟩
  · simp [Field.slot, hfree]
  · intro cs rest hcs hrest
    rw [← hset]
    exact (hread cs rest hcs hrest).bind (.pure _ _)

namespace Reader

theorem yields_membersFrom {first : Bool} {inner : List Char} {done todo : Finset φ}
    (hfill : Filling fields name Stands slots) (hlisted : Listed NamedMember first members inner)
    (hapart : Disjoint done todo) (hgives : Gives name Stands todo members) (rest : List Char) :
    Yields (membersFrom fields first (slots done)) (inner ++ '\x7d' :: rest)
      (slots (done ∪ todo)) ('\x7d' :: rest) := by
  induction hlisted generalizing done todo with
  | nil hgap =>
    rw [hgives.nil, Finset.union_empty]
    exact yields_membersFrom_end _ _ hgap rest
  | @cons first lead cs tail m members hlead hpiece htail ih =>
    obtain ⟨n, v⟩ := m
    obtain ⟨key, hkey, ⟨hgap, hgap'⟩⟩ := hpiece
    have hmore : Delimited (tail ++ '\x7d' :: rest) := htail.delimited (by decide) rest
    simp only [List.append_assoc, List.cons_append]
    by_cases hknown : ∃ f, n = name f
    · obtain ⟨f, rfl⟩ := hknown
      obtain ⟨hf, hstands, hrest⟩ := hgives.field hfill.injective
      obtain ⟨field, hfind, hfield⟩ := hfill.find f
      have hnot : f ∉ done := Finset.disjoint_right.mp hapart hf
      obtain ⟨hfree, hskips, hread⟩ := hfield done hnot
      have hapart' : Disjoint (insert f done) (todo.erase f) := by
        rw [Finset.disjoint_insert_left]
        exact ⟨Finset.notMem_erase f todo, hapart.mono_right (Finset.erase_subset f todo)⟩
      have hunion : insert f done ∪ todo.erase f = done ∪ todo := by
        rw [Finset.insert_union, ← Finset.union_insert, Finset.insert_erase hf]
      rw [← hunion]
      exact yields_membersFrom_cons (yields_member_field hlead hkey hgap hfind hfree
        (hskips.yields hgap' (hread v _ hstands hmore))) (by simp; omega) (ih hapart' hrest)
    · have hn : ∀ f, n ≠ name f := fun f h => hknown ⟨f, h⟩
      obtain ⟨hvalue, hrest⟩ := hgives.other hn
      exact yields_membersFrom_cons (yields_member_unknown hlead hkey hgap hgap'
        (hfill.find_unknown hn) hvalue hmore) (by simp; omega) (ih hapart hrest)

/-- A record is made of the fields that its object gives. -/
theorem yields_record_given {shape : Shape σ α} {a : α}
    (hfill : Filling shape.fields name Stands slots) (hstart : slots ∅ = shape.start)
    (hfinish : shape.finish (slots given) = .ok a) (h : RecordText name Stands given cs)
    (rest : List Char) : Yields (record shape) (cs ++ rest) a rest := by
  obtain ⟨members, ⟨inner, hlisted, rfl⟩, hgives⟩ := h
  have hmembers := yields_membersFrom hfill hlisted (Finset.disjoint_empty_left given) hgives rest
  rw [Finset.empty_union, hstart] at hmembers
  rw [List.cons_append, List.append_assoc]
  exact yields_record hmembers hfinish

end Reader

end Pinboard.Json
