import Pinboard.Json.Value
import Pinboard.Proofs.Skipping

/-!
# Reading what a literal stands for

A string is read as the text that its literal stands for, whichever of its characters are escaped. A
choice may come as a string or as an object with one member, and a record is made of what its
members come to. A written string or choice is one of the forms that are read.
-/

namespace Pinboard.Json

/-! ## Written strings -/

theorem hexDigit_spec : ∀ n < 16, (hexDigit n).utf8Size = 1 ∧
    Text.hexValue? (hexDigit n) = some n := by
  decide

theorem hexText_small {n : Nat} (hn : n < 256) :
    HexText ['0', '0', hexDigit (n / 16), hexDigit (n % 16)] n := by
  obtain ⟨-, hhigh⟩ := hexDigit_spec (n / 16) (by omega)
  obtain ⟨-, hlow⟩ := hexDigit_spec (n % 16) (by omega)
  have hzero : Text.hexValue? '0' = some 0 := rfl
  have hfour := HexText.mk hzero hzero hhigh hlow
  have hn : ((0 * 16 + 0) * 16 + n / 16) * 16 + n % 16 = n := by omega
  rwa [hn] at hfour

/-- A written character stands for itself. -/
theorem spells_escapeChar (c : Char) {cs text : List Char} (h : Spells cs text) :
    Spells (escapeChar c ++ cs) (c :: text) := by
  unfold escapeChar
  iterate 7
    split
    · rename_i hc
      subst hc
      exact .short (by decide) h
  split
  · rename_i hcontrol
    have hunit := Spells.unit (hexText_small (Nat.lt_trans hcontrol (by decide)))
      (Or.inl (Nat.lt_trans hcontrol (by decide))) h
    rwa [Char.ofNat_toNat] at hunit
  · rename_i hquote hslash _ _ _ _ _ hcontrol
    exact .plain ⟨hquote, hslash, Nat.not_lt.mp hcontrol⟩ h

theorem stringOf_textChars (s : String) : StringOf (textChars s) s := by
  refine ⟨s.toList.flatMap escapeChar, ?_, by simp [textChars]⟩
  induction s.toList with
  | nil => exact .nil
  | cons c cs ih => exact spells_escapeChar c ih

namespace Reader

variable {α : Type} {cs rest gap : List Char} {a : α} {c x : Char} {n : Nat}

/-! ## Escapes -/

theorem yields_escape_short (h : (c, x) ∈ escapes) (rest : List Char) :
    Yields escape (c :: rest) x rest := by
  refine ⟨[c], rfl, fun p => ?_⟩
  simp only [escapes, List.mem_cons, Prod.mk.injEq, List.not_mem_nil, or_false] at h
  rcases h with ⟨rfl, rfl⟩ | ⟨rfl, rfl⟩ | ⟨rfl, rfl⟩ | ⟨rfl, rfl⟩ | ⟨rfl, rfl⟩ | ⟨rfl, rfl⟩ |
    ⟨rfl, rfl⟩ | ⟨rfl, rfl⟩ <;> rfl

theorem yields_escape_unit {four : List Char} (h : HexText four n)
    (hrange : n < 0xD800 ∨ 0xDFFF < n) (rest : List Char) :
    Yields escape ('u' :: (four ++ rest)) (Char.ofNat n) rest := by
  refine (yields_peek _).bind ((yields_skip _ _).bind ?_)
  unfold hexEscape
  refine (yields_hexDigits h rest).bind ?_
  rw [if_neg (by omega), if_pos (by omega)]
  exact .pure _ _

theorem yields_surrogateMark (c : Char) (rest : List Char) :
    Yields (surrogateMark c) (c :: rest) () rest := by
  unfold surrogateMark
  refine (yields_peek _).bind ?_
  simp only [List.head?_cons, if_true]
  exact yields_skip _ _

theorem yields_escape_pair {four four' : List Char} {high low : Nat} (hhigh : HexText four high)
    (hlow : HexText four' low) (hrange : 0xD800 ≤ high ∧ high ≤ 0xDBFF)
    (hrange' : 0xDC00 ≤ low ∧ low ≤ 0xDFFF) (rest : List Char) :
    Yields escape ('u' :: (four ++ '\\' :: 'u' :: (four' ++ rest)))
      (Char.ofNat (0x10000 + (high - 0xD800) * 0x400 + (low - 0xDC00))) rest := by
  refine (yields_peek _).bind ((yields_skip _ _).bind ?_)
  unfold hexEscape
  refine (yields_hexDigits hhigh _).bind ?_
  rw [if_neg (by omega), if_neg (by omega)]
  refine (yields_surrogateMark _ _).bind ((yields_surrogateMark _ _).bind ?_)
  refine (yields_hexDigits hlow rest).bind ?_
  rw [if_neg (by omega), Nat.add_assoc 0x10000, Nat.add_comm 0x10000]
  exact .pure _ _

/-! ## Strings -/

theorem yields_textFrom_escape {done more : List Char} {s : String} (h : Yields escape cs x more)
    (hmore : Yields (textFrom (x :: done)) more s rest) :
    Yields (textFrom done) ('\\' :: cs) s rest := by
  have hle := h.length_le
  refine ((yields_skip '\\' cs).bind (f := fun _ => escape) h).trans hmore ?_
  intro p q hq
  replace hq : escape ⟨cs, p.after '\\'⟩ = .ok (x, ⟨more, q⟩) := hq
  rw [textFrom.eq_def]
  dsimp only
  rw [if_neg (by decide), if_pos rfl, hq]
  dsimp only
  rw [if_pos hle]

theorem yields_textFrom_plain {done : List Char} {s : String} (hc : Plain c)
    (h : Yields (textFrom (c :: done)) cs s rest) : Yields (textFrom done) (c :: cs) s rest := by
  refine (yields_skip c cs).trans h ?_
  intro p q hq
  cases hq
  obtain ⟨hquote, hslash, hcontrol⟩ := hc
  rw [textFrom.eq_def]
  dsimp only
  rw [if_neg hquote, if_neg hslash, if_neg (Nat.not_lt.mpr hcontrol)]

theorem yields_textFrom {body chars : List Char} (h : Spells body chars) (done rest : List Char) :
    Yields (textFrom done) (body ++ '"' :: rest) (String.ofList (done.reverse ++ chars)) rest := by
  induction h generalizing done with
  | nil =>
    refine ⟨['"'], rfl, fun p => ?_⟩
    rw [List.nil_append, textFrom.eq_def, List.append_nil]
    rfl
  | @plain c cs text hc _ ih =>
    have htext := ih (c :: done)
    rw [List.reverse_cons, List.append_assoc] at htext
    exact yields_textFrom_plain hc htext
  | @short c x cs text hc _ ih =>
    have htext := ih (x :: done)
    rw [List.reverse_cons, List.append_assoc] at htext
    exact yields_textFrom_escape (yields_escape_short hc _) htext
  | @unit four cs text n hn hrange _ ih =>
    have htext := ih (Char.ofNat n :: done)
    rw [List.reverse_cons, List.append_assoc] at htext
    rw [List.cons_append, List.cons_append, List.append_assoc]
    exact yields_textFrom_escape (yields_escape_unit hn hrange _) htext
  | @pair four four' cs text high low hhigh hlow hrange hrange' _ ih =>
    have htext := ih (Char.ofNat (0x10000 + (high - 0xD800) * 0x400 + (low - 0xDC00)) :: done)
    rw [List.reverse_cons, List.append_assoc] at htext
    simp only [List.cons_append, List.append_assoc]
    exact yields_textFrom_escape (yields_escape_pair hhigh hlow hrange hrange' _) htext

/-- Behind its opening quote, a literal is read as what it stands for. -/
theorem yields_text {body : List Char} {s : String} (h : Spells body s.toList) (rest : List Char) :
    Yields text (body ++ '"' :: rest) s rest := by
  have htext := yields_textFrom h [] rest
  rwa [List.reverse_nil, List.nil_append, String.ofList_toList] at htext

theorem string_gap (expected : String) : SkipsGap (string expected) := (token_gap.bind _).located

theorem yields_string {expected s : String} (h : StringOf cs s) (rest : List Char) :
    Yields (string expected) (cs ++ rest) s rest := by
  obtain ⟨body, hbody, rfl⟩ := h
  rw [List.cons_append, List.append_assoc]
  refine Yields.located ((yields_token (by decide) _).bind ?_)
  exact (yields_skip _ _).bind (yields_text hbody rest)

theorem yields_stringWith (expected : String) {s : String} {make : String → Except Problem α}
    (h : StringOf cs s) (hmake : make s = .ok a) (rest : List Char) :
    Yields (stringWith expected make) (cs ++ rest) a rest := by
  refine Yields.located ((yields_string h rest).bind ?_)
  rw [hmake]
  exact .pure _ _

theorem takes_string (expected s : String) : Takes (string expected) (textChars s) s :=
  .of_yields fun rest _ => yields_string (stringOf_textChars s) rest

theorem takes_stringWith {expected s : String} {make : String → Except Problem α}
    (h : make s = .ok a) : Takes (stringWith expected make) (textChars s) a :=
  .of_yields fun rest _ => yields_stringWith expected (stringOf_textChars s) h rest

/-! ## Choices -/

variable {choices : List (String × α)} {name : String}

theorem choose_eq_ok (h : choices.lookup name = some a) : choose choices name = .ok a := by
  unfold choose
  rw [h]

theorem choice_gap (choices : List (String × α)) : SkipsGap (choice choices) := token_gap.bind _

theorem yields_choice (h : choices.lookup name = some a) (hcs : StringOf cs name)
    (rest : List Char) : Yields (choice choices) (cs ++ rest) a rest := by
  have hread := yields_stringWith "variant identifier" hcs (choose_eq_ok h) rest
  obtain ⟨body, hbody, rfl⟩ := hcs
  exact (yields_token (by decide) _).bind hread

theorem choiceKey_gap (choices : List (String × α)) : SkipsGap (choiceKey choices) :=
  token_gap.bind _

theorem yields_choiceKey (h : choices.lookup name = some a) (hcs : StringOf cs name)
    (rest : List Char) : Yields (choiceKey choices) (cs ++ rest) a rest := by
  have hread := yields_stringWith "variant identifier" hcs (choose_eq_ok h) rest
  obtain ⟨body, hbody, rfl⟩ := hcs
  exact (yields_token (by decide) _).bind hread

theorem colon_gap : SkipsGap colon := token_gap.bind _

theorem yields_colon (rest : List Char) : Yields colon (':' :: rest) () rest :=
  (yields_token (by decide) _).bind (yields_skip _ _)

theorem null_gap : SkipsGap null := (token_gap.bind _).located

theorem yields_null (rest : List Char) : Yields null (['n', 'u', 'l', 'l'] ++ rest) () rest := by
  refine Yields.located ((yields_token (by decide) _).bind ?_)
  exact (yields_skip _ _).bind (yields_literal _ _)

theorem choiceEnd_gap : SkipsGap choiceEnd := token_gap.bind _

theorem yields_choiceEnd (rest : List Char) : Yields choiceEnd ('\x7d' :: rest) () rest :=
  (yields_token (by decide) _).bind (yields_skip _ _)

/-- A choice may also be the key of an object whose value is `null`. -/
theorem yields_choice_object (h : choices.lookup name = some a)
    (hcs : ObjectText [(name, ['n', 'u', 'l', 'l'])] cs) (rest : List Char) :
    Yields (choice choices) (cs ++ rest) a rest := by
  obtain ⟨inner, hlisted, rfl⟩ := hcs
  cases hlisted with
  | cons hlead hpiece htail =>
    cases hlead with
    | first hgap =>
      obtain ⟨key, hkey, hmember⟩ := hpiece
      cases hmember with
      | mk hgap₁ hgap₂ =>
        cases htail with
        | nil hgap₃ =>
          simp only [List.cons_append, List.append_assoc]
          refine (yields_token (by decide) _).bind ((yields_skip _ _).bind ?_)
          refine ((choiceKey_gap _).yields hgap (yields_choiceKey h hkey _)).bind ?_
          refine (colon_gap.yields hgap₁ (yields_colon _)).bind ?_
          refine (null_gap.yields hgap₂ (yields_null _)).bind ?_
          exact (choiceEnd_gap.yields hgap₃ (yields_choiceEnd rest)).bind (.pure _ _)

theorem takes_choice (h : choices.lookup name = some a) :
    Takes (choice choices) (Value.text name).chars a :=
  .of_yields fun rest _ => yields_choice h (stringOf_textChars name) rest

/-- A choice with a text is written as an object with one member. -/
theorem takes_choiceWithText {choices : List (String × (String → α))} {make : String → α}
    {s : String} (h : choices.lookup name = some make) :
    Takes (choiceWithText choices) (Value.object [(name, .text s)]).chars (make s) := by
  refine .of_yields fun rest _ => ?_
  have hchars : (Value.object [(name, .text s)]).chars ++ rest =
      '\x7b' :: (textChars name ++ ':' :: (textChars s ++ '\x7d' :: rest)) := by
    simp [Value.chars, objectChars]
  rw [hchars]
  refine (yields_token (by decide) _).bind ((yields_skip _ _).bind ?_)
  refine (yields_choiceKey h (stringOf_textChars name) _).bind ((yields_colon _).bind ?_)
  refine (yields_string (stringOf_textChars s) _).bind ?_
  exact (yields_choiceEnd rest).bind (.pure _ _)

/-! ## Members -/

theorem yields_nextKey {first : Bool} {lead key : List Char} {name : String}
    (hlead : Lead first lead) (hkey : StringOf key name) (rest : List Char) :
    Yields (nextKey first) (lead ++ (key ++ rest)) (some name) rest := by
  obtain ⟨body, hbody, rfl⟩ := hkey
  have htext : Yields (some <$> text) (body ++ '"' :: rest) (some name) rest :=
    (yields_text hbody rest).map _
  rw [List.cons_append, List.append_assoc]
  unfold nextKey
  cases hlead with
  | first hgap =>
    refine (token_gap.yields hgap (yields_token (by decide) _)).bind ?_
    exact (yields_skip _ _).bind htext
  | next hgap hgap' =>
    rw [List.append_assoc, List.cons_append]
    refine (token_gap.yields hgap (yields_token (by decide) _)).bind ?_
    refine (yields_skip _ _).bind ?_
    refine (token_gap.yields hgap' (yields_token (by decide) _)).bind ?_
    exact (yields_skip _ _).bind htext

theorem yields_nextKey_end (first : Bool) (hgap : Gap gap) (rest : List Char) :
    Yields (nextKey first) (gap ++ '\x7d' :: rest) none ('\x7d' :: rest) :=
  (token_gap.yields hgap (yields_token (by decide) _)).bind (.pure _ _)

/-! ## Records -/

section Records

variable {σ α : Type} {fields : List (Field σ)} {field : Field σ} {s s' s'' : σ} {first : Bool}
  {cs rest more lead key gap : List Char} {n : String} {a : α}

/-- A member is read into the field of its name, while that is free. -/
theorem yields_member_field (hlead : Lead first lead) (hkey : StringOf key n) (hgap : Gap gap)
    (hfind : fields.find? (·.name == n) = some field) (hfree : field.filled s = false)
    (hread : Yields (field.read s) cs s' more) :
    Yields (member fields first s) (lead ++ (key ++ (gap ++ ':' :: cs))) (some s') more := by
  refine (yields_nextKey hlead hkey _).bind ?_
  simp only [hfind, hfree, Bool.false_eq_true, if_false]
  exact (colon_gap.yields hgap (yields_colon _)).bind (hread.map _)

/-- A member of another name is skipped. -/
theorem yields_member_unknown {v gap' : List Char} (hlead : Lead first lead)
    (hkey : StringOf key n) (hgap : Gap gap) (hgap' : Gap gap')
    (hfind : fields.find? (·.name == n) = none) (hvalue : JsonText v) (hmore : Delimited more) :
    Yields (member fields first s) (lead ++ (key ++ (gap ++ ':' :: (gap' ++ (v ++ more))))) (some s)
      more := by
  refine (yields_nextKey hlead hkey _).bind ?_
  simp only [hfind]
  refine (colon_gap.yields hgap (yields_colon _)).bind ?_
  exact (yields_skipValue hgap' hvalue hmore).bind (.pure _ _)

theorem yields_membersFrom_end (first : Bool) (s : σ) (hgap : Gap gap) (rest : List Char) :
    Yields (membersFrom fields first s) (gap ++ '\x7d' :: rest) s ('\x7d' :: rest) := by
  have hmember : Yields (member fields first s) (gap ++ '\x7d' :: rest) none ('\x7d' :: rest) :=
    (yields_nextKey_end first hgap rest).bind (.pure _ _)
  refine hmember.trans (.pure s _) ?_
  intro p q hq
  rw [membersFrom.eq_def, hq]
  rfl

theorem yields_membersFrom_cons (hmember : Yields (member fields first s) cs (some s') more)
    (hlt : more.length < cs.length) (h : Yields (membersFrom fields false s') more s'' rest) :
    Yields (membersFrom fields first s) cs s'' rest := by
  refine hmember.trans h ?_
  intro p q hq
  rw [membersFrom.eq_def, hq]
  dsimp only
  rw [if_pos hlt]

theorem yields_enclosed {body : Reader α} (h : Yields body cs a ('\x7d' :: rest)) :
    Yields (enclosed body objectEnd) cs a rest := by
  obtain ⟨taken, rfl, hbody⟩ := h
  refine ⟨taken ++ ['\x7d'], by simp, fun p => ?_⟩
  unfold enclosed
  rw [hbody p]
  simp [objectEnd, isSpace, Cursor.drop, List.foldl_append]

theorem record_gap (shape : Shape σ α) : SkipsGap (record shape) := (token_gap.bind _).located

/-- A record is made of what its members come to. -/
theorem yields_record {shape : Shape σ α}
    (h : Yields (membersFrom shape.fields true shape.start) cs s ('\x7d' :: rest))
    (hfinish : shape.finish s = .ok a) : Yields (record shape) ('\x7b' :: cs) a rest := by
  have hfinished : Yields (finished shape s) ('\x7d' :: rest) a ('\x7d' :: rest) := by
    unfold finished
    rw [hfinish]
    exact .pure _ _
  refine Yields.located ((yields_token (by decide) _).bind ((yields_skip _ _).bind ?_))
  exact yields_enclosed (h.bind hfinished)

end Records

end Reader

end Pinboard.Json
