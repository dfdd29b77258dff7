import Pinboard.Proofs.Exactness
import Pinboard.Proofs.Sections

/-!
# Fields given twice

What a record reads of an object is told member by member (`Reads`): each value goes to the field of
its name while that field is free, and a field that was read stays filled. So an object with some
field twice is not read, whatever else it holds and in whichever form.
-/

namespace Pinboard.Json

variable {σ α : Type} {fields : List (Field σ)} {s s' s'' : σ} {cs rest more : List Char}

theorem Spells.stringBody {body text : List Char} (h : Spells body text) : StringBody body := by
  induction h with
  | nil => exact .nil
  | plain hc _ ih => exact .plain hc ih
  | short hc _ ih => exact .short hc ih
  | unit hn _ _ ih => exact .unit hn ih
  | pair hhigh hlow _ _ _ ih => exact .unit hhigh (.unit hlow ih)

theorem StringOf.stringText {n : String} (h : StringOf cs n) : StringText cs := by
  obtain ⟨body, hbody, rfl⟩ := h
  exact ⟨body, hbody.stringBody, rfl⟩

/-- The field has read this value, in some place. -/
def ReadAs (field : Field σ) (s : σ) (v : List Char) (s' : σ) : Prop :=
  ∃ rest p c, Delimited rest ∧ field.read s ⟨v ++ rest, p⟩ = .ok (s', c)

/-- The members are read one after another, each into the field of its name. -/
inductive Reads (fields : List (Field σ)) : σ → List (List Char × List Char) → σ → Prop where
  /-- No member is left. -/
  | nil (s : σ) : Reads fields s [] s
  /-- A member that names a field fills it, if nothing has done so before. -/
  | field {key v : List Char} {n : String} {field : Field σ} {s s' s'' : σ}
      {members : List (List Char × List Char)} (hname : ∀ n', StringOf key n' → n = n')
      (hfind : fields.find? (·.name == n) = some field) (hfree : field.filled s = false)
      (hread : ReadAs field s v s') (hrest : Reads fields s' members s'') :
      Reads fields s ((key, v) :: members) s''
  /-- A member that names none is passed over. -/
  | other {key v : List Char} {n : String} {s s' : σ} {members : List (List Char × List Char)}
      (hname : ∀ n', StringOf key n' → n = n') (hfind : fields.find? (·.name == n) = none)
      (hrest : Reads fields s members s') : Reads fields s ((key, v) :: members) s'

/-- Each field has a name and a slot of its own, and takes exactly its value. -/
structure Slotted (fields : List (Field σ)) : Prop where
  /-- It is found by its name. -/
  find : ∀ field ∈ fields, fields.find? (·.name == field.name) = some field
  /-- It ends where its value ends. -/
  exact : ∀ field ∈ fields, ∀ s, Exact (field.read s)
  /-- Reading it fills its slot and empties no other. -/
  fills : ∀ field ∈ fields, ∀ s v s', ReadAs field s v s' →
    field.filled s' = true ∧ ∀ g ∈ fields, g.filled s = true → g.filled s' = true

namespace Reader

/-! ## Members -/

variable {first : Bool} {lead key piece v : List Char}

theorem ensures_nextKey (hlead : Lead first lead) (hkey : StringText key) (rest : List Char) :
    Ensures (nextKey first) (lead ++ (key ++ rest)) fun k left => left = rest ∧
      ∃ n, k = some n ∧ ∀ n', StringOf key n' → n = n' := by
  obtain ⟨body, hbody, rfl⟩ := hkey
  have htext : Ensures (some <$> text) (body ++ '"' :: rest) fun k left => left = rest ∧
      ∃ n, k = some n ∧ ∀ n', StringOf ('"' :: (body ++ ['"'])) n' → n = n' := by
    refine .map ((ensures_text hbody rest).mono ?_)
    rintro n left ⟨hleft, hn⟩
    refine ⟨hleft, n, rfl, ?_⟩
    rintro n' ⟨body', hbody', heq⟩
    obtain rfl : body = body' := List.append_cancel_right (List.cons.inj heq).2
    exact hn n' hbody'
  rw [List.cons_append, List.append_assoc]
  unfold nextKey
  cases hlead with
  | first hgap =>
    refine .after (token_gap.yields hgap (yields_token (by decide) _)) ?_
    exact .after (yields_skip _ _) htext
  | next hgap hgap' =>
    rw [List.append_assoc, List.cons_append]
    refine .after (token_gap.yields hgap (yields_token (by decide) _)) ?_
    refine .after (yields_skip _ _) ?_
    refine .after (token_gap.yields hgap' (yields_token (by decide) _)) ?_
    exact .after (yields_skip _ _) htext

/-- What is read of one member. -/
def ReadOne (fields : List (Field σ)) (s : σ) (key v : List Char) (s' : σ) : Prop :=
  ∃ n, (∀ n', StringOf key n' → n = n') ∧
    ((∃ field, fields.find? (·.name == n) = some field ∧ field.filled s = false ∧
      ReadAs field s v s') ∨ (fields.find? (·.name == n) = none ∧ s' = s))

theorem ensures_member (hfields : ∀ field ∈ fields, ∀ s, Exact (field.read s))
    (hlead : Lead first lead) (hkey : StringText key) (hpiece : MemberText (key, v) piece)
    (hvalue : JsonText v) (hmore : Delimited more) :
    Ensures (member fields first s) (lead ++ (piece ++ more)) fun o left =>
      ∃ s', o = some s' ∧ left = more ∧ ReadOne fields s key v s' := by
  cases hpiece with
  | mk hgap hgap' =>
    simp only [List.append_assoc, List.cons_append]
    refine (ensures_nextKey hlead hkey _).bind ?_
    rintro _ _ ⟨rfl, n, rfl, hname⟩
    dsimp only
    split
    · rename_i field hfind
      split
      · exact .complain _
      · rename_i hfree
        have hexact := hfields field (List.mem_of_find?_eq_some hfind) s
        have hread : Ensures (field.read s) (v ++ more) fun s' left => left = more ∧
            ReadAs field s v s' := by
          intro p s' c hok
          exact ⟨hexact.ends v more hvalue hmore p s' c hok, more, p, c, hmore, hok⟩
        refine .after (colon_gap.yields hgap (yields_colon _)) (.map ?_)
        refine (hexact.gap.ensures hgap' hread).mono ?_
        rintro s' left ⟨hleft, hs'⟩
        exact ⟨s', rfl, hleft, n, hname,
          Or.inl ⟨field, hfind, Bool.eq_false_iff.mpr hfree, hs'⟩⟩
    · rename_i hfind
      refine .after (colon_gap.yields hgap (yields_colon _)) ?_
      refine .after (yields_skipValue hgap' hvalue hmore) (.pure ?_)
      exact ⟨s, rfl, rfl, n, hname, Or.inr ⟨hfind, rfl⟩⟩

theorem ensures_membersFrom_cons {Q : σ → List Char → Prop} {R : σ → List Char → Prop}
    (h : Ensures (member fields first s) cs fun o left => ∃ s', o = some s' ∧ Q s' left)
    (h' : ∀ s' left, Q s' left → Ensures (membersFrom fields false s') left R) :
    Ensures (membersFrom fields first s) cs R := by
  intro p t c hok
  rw [membersFrom.eq_def] at hok
  cases hmember : member fields first s ⟨cs, p⟩ with
  | error stop =>
    rw [hmember] at hok
    cases hok
  | ok x =>
    obtain ⟨o, past⟩ := x
    obtain ⟨s', rfl, hs'⟩ := h p o past hmember
    rw [hmember] at hok
    dsimp only at hok
    split at hok
    · exact h' s' past.rest hs' past.position t c hok
    · cases hok

/-- If the members of an object are read, they are read one by one to the closing brace. -/
theorem ensures_membersFrom (hfields : ∀ field ∈ fields, ∀ s, Exact (field.read s))
    {members : List (List Char × List Char)} {inner : List Char}
    (hlisted : Listed MemberText first members inner) (hkeys : ∀ m ∈ members, StringText m.1)
    (hvalues : ∀ m ∈ members, JsonText m.2) (s : σ) (rest : List Char) :
    Ensures (membersFrom fields first s) (inner ++ '\x7d' :: rest) fun s' left =>
      left = '\x7d' :: rest ∧ Reads fields s members s' := by
  induction hlisted generalizing s with
  | nil hgap =>
    refine (yields_membersFrom_end _ s hgap rest).ensures.mono ?_
    rintro _ _ ⟨rfl, rfl⟩
    exact ⟨rfl, .nil _⟩
  | @cons first lead piece tail m members hlead hpiece htail ih =>
    obtain ⟨key, v⟩ := m
    obtain ⟨hkey, hkeys⟩ := List.forall_mem_cons.mp hkeys
    obtain ⟨hvalue, hvalues⟩ := List.forall_mem_cons.mp hvalues
    rw [List.append_assoc, List.append_assoc]
    have hmore : Delimited (tail ++ '\x7d' :: rest) := htail.delimited (by decide) rest
    have hmember := ensures_member (s := s) hfields hlead hkey hpiece hvalue hmore
    refine ensures_membersFrom_cons hmember ?_
    rintro s' _ ⟨rfl, n, hname, hs'⟩
    refine (ih hkeys hvalues s').mono ?_
    rintro s'' left ⟨hleft, hrest⟩
    refine ⟨hleft, ?_⟩
    rcases hs' with ⟨field, hfind, hfree, hread⟩ | ⟨hfind, rfl⟩
    · exact .field hname hfind hfree hread hrest
    · exact .other hname hfind hrest

/-! ## Elements -/

variable {items : List (List Char)} {inner : List Char} {shape : Shape σ α}

theorem ensures_enclosed {body : Reader α} {close : Cursor → Option Stop × Cursor}
    {Q : α → List Char → Prop} {R : α → List Char → Prop} (hbody : Ensures body cs Q)
    (hclose : ∀ a left p c, Q a left → close ⟨left, p⟩ = (none, c) → R a c.rest) :
    Ensures (enclosed body close) cs R := by
  intro p a c hok
  unfold enclosed at hok
  cases hrun : body ⟨cs, p⟩ with
  | error stop =>
    rw [hrun] at hok
    cases stop <;> cases hok
  | ok x =>
    obtain ⟨a', past⟩ := x
    have hQ := hbody p a' past hrun
    rw [hrun] at hok
    dsimp only at hok
    split at hok
    · rename_i after hafter
      cases hok
      exact hclose _ past.rest past.position _ hQ hafter
    · cases hok

/-! ## Records -/

theorem ensures_finished (s : σ) :
    Ensures (finished shape s) cs fun _ left => left = cs := by
  unfold finished
  split
  · exact .pure rfl
  · exact .complain _

/-- If a record is read from an object, the object's members are read one by one. -/
theorem ensures_record_object (hfields : ∀ field ∈ shape.fields, ∀ s, Exact (field.read s))
    {members : List (List Char × List Char)} (hlisted : Listed MemberText true members inner)
    (hkeys : ∀ m ∈ members, StringText m.1) (hvalues : ∀ m ∈ members, JsonText m.2)
    (rest : List Char) :
    Ensures (record shape) ('\x7b' :: (inner ++ '\x7d' :: rest)) fun _ left => left = rest ∧
      ∃ s', Reads shape.fields shape.start members s' := by
  refine Ensures.located (.after (yields_token (by decide) _) (.after (yields_skip _ _) ?_))
  have hbody : Ensures (do finished shape (← membersFrom shape.fields true shape.start))
      (inner ++ '\x7d' :: rest) fun _ left => left = '\x7d' :: rest ∧
        ∃ s', Reads shape.fields shape.start members s' := by
    refine (ensures_membersFrom hfields hlisted hkeys hvalues shape.start rest).bind ?_
    rintro s' _ ⟨rfl, hreads⟩
    exact (ensures_finished s').mono fun _ _ h => ⟨h, s', hreads⟩
  refine ensures_enclosed hbody ?_
  rintro a left p c ⟨rfl, hreads⟩ hclose
  refine ⟨?_, hreads⟩
  simp [objectEnd, isSpace, Cursor.drop] at hclose
  rw [← hclose]

end Reader

/-! ## Once or not at all -/

variable {members : List (List Char × List Char)}

/-- A filled field is not read again, and every other one at most once. -/
theorem Reads.count_le (hslots : Slotted fields) (h : Reads fields s members s')
    {names : List String} (hnames : List.Forall₂ (fun m n => StringOf m.1 n) members names) :
    ∀ g ∈ fields, names.count g.name ≤ if g.filled s then 0 else 1 := by
  induction h generalizing names with
  | nil =>
    cases hnames
    simp
  | @field key v n field s s' s'' members hname hfind hfree hread _ ih =>
    cases hnames with
    | @cons _ n' _ names hkey hnames =>
      obtain rfl := hname n' hkey
      obtain ⟨hfilled, hkeeps⟩ := hslots.fills field (List.mem_of_find?_eq_some hfind) s v s' hread
      intro g hg
      have hrest := ih hnames g hg
      by_cases hgn : n = g.name
      · have hsame := hslots.find g hg
        rw [← hgn, hfind] at hsame
        cases hsame
        rw [hfilled, if_pos rfl] at hrest
        rw [hfree, hgn, List.count_cons_self, if_neg Bool.false_ne_true]
        omega
      · rw [List.count_cons_of_ne hgn]
        by_cases hgs : g.filled s = true
        · rw [hkeeps g hg hgs, if_pos rfl] at hrest
          rwa [hgs, if_pos rfl]
        · rw [if_neg hgs]
          split at hrest <;> omega
  | @other key v n s s' members hname hfind _ ih =>
    cases hnames with
    | @cons _ n' _ names hkey hnames =>
      obtain rfl := hname n' hkey
      intro g hg
      have hgn : n ≠ g.name := by
        rintro rfl
        rw [hslots.find g hg] at hfind
        cases hfind
      rw [List.count_cons_of_ne hgn]
      exact ih hnames g hg

/-- Every value under the name of a field is read by the field. -/
theorem Reads.read (hslots : Slotted fields) (h : Reads fields s members s') {g : Field σ}
    (hg : g ∈ fields) {m : List Char × List Char} (hm : m ∈ members)
    (hname : StringOf m.1 g.name) : ∃ s₁ s₂, ReadAs g s₁ m.2 s₂ := by
  induction h with
  | nil => cases hm
  | @field key v n field s s' s'' members hn hfind _ hread _ ih =>
    rcases List.mem_cons.mp hm with rfl | hm
    · obtain rfl := hn _ hname
      rw [hslots.find g hg] at hfind
      cases hfind
      exact ⟨s, s', hread⟩
    · exact ih hm
  | @other key v n s s' members hn hfind _ ih =>
    rcases List.mem_cons.mp hm with rfl | hm
    · obtain rfl := hn _ hname
      rw [hslots.find g hg] at hfind
      cases hfind
    · exact ih hm

theorem exists_of_forall₂ {α β : Type} {R : α → β → Prop} {xs : List α} {ys : List β}
    (h : List.Forall₂ R xs ys) {x : α} (hx : x ∈ xs) : ∃ y ∈ ys, R x y := by
  induction h with
  | nil => cases hx
  | cons hR _ ih =>
    rcases List.mem_cons.mp hx with rfl | hx
    · exact ⟨_, List.mem_cons_self, hR⟩
    · obtain ⟨y, hy, hxy⟩ := ih hx
      exact ⟨y, List.mem_cons_of_mem _ hy, hxy⟩

theorem Listed.exists_raw {first : Bool} {members : List (String × List Char)}
    {inner : List Char} (h : Listed NamedMember first members inner) : ∃ raw,
    Listed MemberText first raw inner ∧
      List.Forall₂ (fun r m => StringOf r.1 m.1 ∧ r.2 = m.2) raw members := by
  induction h with
  | nil hgap => exact ⟨[], .nil hgap, .nil⟩
  | @cons first lead cs tail m members hlead hpiece _ ih =>
    obtain ⟨key, hkey, hmember⟩ := hpiece
    obtain ⟨raw, htail, hraw⟩ := ih
    exact ⟨(key, m.2) :: raw, .cons hlead hmember htail, .cons ⟨hkey, rfl⟩ hraw⟩

/-- An object whose members have, one after another, these names and these values, in any form. -/
def JsonObject (members : List (String × List Char)) (cs : List Char) : Prop :=
  ObjectText members cs ∧ ∀ m ∈ members, JsonText m.2

section Objects

variable {members : List (String × List Char)} {shape : Shape σ α} {field : Field σ}

/-- Whoever reads an object reads all of its members. -/
theorem JsonObject.ensures_reads (hslots : Slotted shape.fields) (h : JsonObject members cs)
    (rest : List Char) :
    Ensures (Reader.record shape) (cs ++ rest) fun _ _ => ∃ raw s',
      Reads shape.fields shape.start raw s' ∧
        List.Forall₂ (fun r m => StringOf r.1 m.1 ∧ r.2 = m.2) raw members := by
  obtain ⟨⟨inner, hlisted, rfl⟩, hvalues⟩ := h
  obtain ⟨raw, hlisted', hraw⟩ := hlisted.exists_raw
  have hkeys : ∀ r ∈ raw, StringText r.1 := by
    intro r hr
    obtain ⟨m, -, hkey, -⟩ := exists_of_forall₂ hraw hr
    exact hkey.stringText
  have hvalues' : ∀ r ∈ raw, JsonText r.2 := by
    intro r hr
    obtain ⟨m, hm, -, hvalue⟩ := exists_of_forall₂ hraw hr
    exact hvalue ▸ hvalues m hm
  rw [List.cons_append, List.append_assoc]
  refine (Reader.ensures_record_object hslots.exact hlisted' hkeys hvalues' rest).mono ?_
  rintro _ _ ⟨-, s', hreads⟩
  exact ⟨raw, s', hreads, hraw⟩

/-- An object that gives a field twice is not read. -/
theorem JsonObject.refused (hslots : Slotted shape.fields) (h : JsonObject members cs)
    (hfield : field ∈ shape.fields) (htwice : 2 ≤ (members.map (·.1)).count field.name)
    (rest : List Char) : Ensures (Reader.record shape) (cs ++ rest) fun _ _ => False := by
  refine (h.ensures_reads hslots rest).mono ?_
  rintro _ _ ⟨raw, s', hreads, hraw⟩
  have hnames : List.Forall₂ (fun r n => StringOf r.1 n) raw (members.map (·.1)) := by
    rw [List.forall₂_map_right_iff]
    exact hraw.imp fun _ _ h => h.1
  have hle := hreads.count_le hslots hnames field hfield
  split at hle <;> omega

end Objects

end Pinboard.Json
