import Pinboard.Proofs.Numerals
import Pinboard.Proofs.Spelling

/-!
# No reader goes beyond a value

Before a JSON value, a reader of any type either stops or takes off exactly this value (`Exact`).
What is of the wrong type is a stop, and so is a half of a surrogate pair; but nothing that is read
leaves a piece of the value behind or takes a piece of what follows it.
-/

namespace Pinboard.Json

open Digits

variable {α β : Type} {r : Reader α} {cs rest : List Char}

/-- Before any value, the reader stops or takes the value off. -/
structure Exact (r : Reader α) : Prop where
  /-- It passes over white space. -/
  gap : SkipsGap r
  /-- Where it succeeds, it has come to the end of the value. -/
  ends : ∀ v rest, JsonText v → Delimited rest → Ensures r (v ++ rest) fun _ left => left = rest

theorem Exact.map (h : Exact r) (f : α → β) : Exact (do pure (f (← r))) where
  gap := h.gap.bind _
  ends v rest hv hrest := (h.ends v rest hv hrest).bind fun _ _ heq => .pure heq

namespace Ensures

variable {f : α → Reader β} {R : β → List Char → Prop}

theorem after {a : α} {mid : List Char} (h : Yields r cs a mid) (h' : Ensures (f a) mid R) :
    Ensures (r >>= f) cs R := by
  refine h.ensures.bind ?_
  rintro _ _ ⟨rfl, rfl⟩
  exact h'

/-- What comes last decides, whatever is read before it. -/
theorem last (h : ∀ a rest, Ensures (f a) rest R) : Ensures (r >>= f) cs R :=
  bind (Q := fun _ _ => True) (fun _ _ _ _ => trivial) fun a rest _ => h a rest

end Ensures

/-! ## What a value begins with -/

namespace Reader

/-! ## Strings -/

theorem ensures_surrogateMark (c : Char) (cs : List Char) :
    Ensures (surrogateMark c) cs fun _ left => cs = c :: left := by
  unfold surrogateMark
  refine .after (yields_peek cs) ?_
  cases cs with
  | nil => exact .fail _
  | cons c' cs =>
    simp only [List.head?_cons]
    by_cases hc : c' = c
    · subst hc
      rw [if_pos rfl]
      exact (yields_skip _ _).ensures.mono fun _ _ h => by rw [h.2]
    · rw [if_neg hc]
      exact .failNext _

/-- After a backslash and a `u`, a whole number of escapes is read. -/
theorem ensures_escape_unit {four body : List Char} {n : Nat} (hn : HexText four n)
    (hbody : StringBody body) (rest : List Char) :
    Ensures escape ('u' :: (four ++ (body ++ '"' :: rest))) fun _ left =>
      ∃ body', StringBody body' ∧ body'.length ≤ body.length ∧ left = body' ++ '"' :: rest := by
  unfold escape
  refine .after (yields_peek _) (.after (yields_skip _ _) ?_)
  unfold hexEscape
  refine .after (yields_hexDigits hn _) ?_
  by_cases hlow : 0xDC00 ≤ n ∧ n ≤ 0xDFFF
  · rw [if_pos hlow]
    exact .fail _
  rw [if_neg hlow]
  by_cases hplain : n < 0xD800 ∨ 0xDBFF < n
  · rw [if_pos hplain]
    exact .pure ⟨body, hbody, Nat.le_refl _, rfl⟩
  rw [if_neg hplain]
  -- the first half of a pair: the literal has to go on with another such escape
  refine (ensures_surrogateMark _ _).bind fun _ left hleft => ?_
  refine (ensures_surrogateMark _ _).bind fun _ left' hleft' => ?_
  subst hleft'
  cases hbody with
  | nil => cases hleft
  | plain hc _ => exact absurd (List.cons.inj hleft).1 hc.2.1
  | @short c x cs hc _ =>
    obtain rfl : c = 'u' := (List.cons.inj (List.cons.inj hleft).2).1
    simp [escapes] at hc
  | @unit four' cs n' hn' hcs =>
    have hleft' : four' ++ (cs ++ '"' :: rest) = left' := by
      simpa using hleft
    subst hleft'
    refine .after (yields_hexDigits hn' _) ?_
    split
    · exact .fail _
    · exact .pure ⟨cs, hcs, by simp; omega, rfl⟩

theorem ensures_textFrom_escape {done : List Char} {Q : Char → List Char → Prop}
    {R : String → List Char → Prop} (h : Ensures escape cs Q)
    (h' : ∀ x left, Q x left → Ensures (textFrom (x :: done)) left R) :
    Ensures (textFrom done) ('\\' :: cs) R := by
  intro p s c hs
  rw [textFrom.eq_def] at hs
  dsimp only at hs
  rw [if_neg (by decide), if_pos rfl] at hs
  cases hescape : escape ⟨cs, p.after '\\'⟩ with
  | error stop =>
    rw [hescape] at hs
    cases hs
  | ok x =>
    obtain ⟨x, past⟩ := x
    rw [hescape] at hs
    dsimp only at hs
    split at hs
    · exact h' x past.rest (h _ _ _ hescape) past.position s c hs
    · cases hs

/-- Behind its opening quote, a literal is read to its closing quote if at all. -/
theorem ensures_textFrom {body : List Char} (hbody : StringBody body) (done rest : List Char) :
    Ensures (textFrom done) (body ++ '"' :: rest) fun _ left => left = rest := by
  induction hlength : body.length using Nat.strongRecOn generalizing body done with
  | ind k ih =>
    subst hlength
    cases hbody with
    | nil =>
      intro p s c hs
      rw [List.nil_append, textFrom.eq_def] at hs
      cases hs
      rfl
    | @plain c cs hc hcs =>
      have hrest := ih cs.length (by simp) hcs (c :: done) rfl
      intro p s c' hs
      obtain ⟨hquote, hslash, hcontrol⟩ := hc
      rw [List.cons_append, textFrom.eq_def] at hs
      dsimp only at hs
      rw [if_neg hquote, if_neg hslash, if_neg (Nat.not_lt.mpr hcontrol)] at hs
      exact hrest _ _ _ hs
    | @short c x cs hc hcs =>
      refine ensures_textFrom_escape (yields_escape_short hc _).ensures ?_
      rintro _ _ ⟨rfl, rfl⟩
      exact ih cs.length (by simp) hcs _ rfl
    | @unit four cs n hn hcs =>
      rw [List.cons_append, List.cons_append, List.append_assoc]
      refine ensures_textFrom_escape (ensures_escape_unit hn hcs rest) ?_
      rintro x _ ⟨body', hbody', hle, rfl⟩
      exact ih body'.length (by simp; omega) hbody' _ rfl

/-- If a literal is read, it is read as what it stands for. -/
theorem ensures_text {body : List Char} (hbody : StringBody body) (rest : List Char) :
    Ensures text (body ++ '"' :: rest) fun s left => left = rest ∧
      ∀ s' : String, Spells body s'.toList → s = s' :=
  fun p s c hs => ⟨ensures_textFrom hbody [] rest p s c hs, fun _ hs' =>
    ((yields_text hs' rest).ensures p s c hs).1⟩

theorem integer_gap (low high : Int) (expected : String) : SkipsGap (integer low high expected) :=
  (token_gap.bind _).located

theorem uint64_gap : SkipsGap uint64 := (integer_gap _ _ _).bind _

end Reader

end Pinboard.Json
