import Pinboard.Proofs.Reading

/-!
# Skipping any value

A value of whatever form is skipped to its last character and no further, however deep it nests. The
open arrays and objects are on a stack, so what is left to do behind a value is said of the stack
(`Resumes`): the separators and brackets that follow, the key of the next member, and then the
values to come.
-/

namespace Pinboard.Json

open Digits

/-! ## What delimits a value -/

theorem Delimited.gap {gap : List Char} {c : Char} (hgap : Gap gap)
    (hc : c ∈ [':', ',', ']', '\x7d']) (rest : List Char) : Delimited (gap ++ c :: rest) := by
  cases gap with
  | nil => exact .cons hc rest
  | cons c' gap =>
    intro c'' hc''
    exact hgap.delimited c'' hc''

theorem Listed.delimited {α : Type} {Piece : α → List Char → Prop} {items : List α}
    {tail : List Char} {c : Char} (h : Listed Piece false items tail)
    (hc : c ∈ [':', ',', ']', '\x7d']) (rest : List Char) : Delimited (tail ++ c :: rest) := by
  cases h with
  | nil hgap => exact .gap hgap hc rest
  | cons hlead _ _ =>
    cases hlead with
    | next hgap _ =>
      simp only [List.append_assoc, List.cons_append]
      exact .gap hgap (by decide) _

theorem Cursor.drop_append (cs rest : List Char) (p : Position) :
    Cursor.drop cs.length ⟨cs ++ rest, p⟩ = ⟨rest, cs.foldl Position.after p⟩ := by
  induction cs generalizing p with
  | nil => rfl
  | cons c cs ih => exact ih (p.after c)

/-! ## Hexadecimal escapes -/

theorem utf8Size_hexValue {c : Char} {n : Nat} (h : Text.hexValue? c = some n) :
    c.utf8Size = 1 := by
  have hsmall : c.toNat < 128 := by
    unfold Text.hexValue? at h
    split at h
    · rename_i hc
      exact Nat.lt_of_le_of_lt hc.2 (by decide)
    · split at h
      · rename_i hc
        exact Nat.lt_of_le_of_lt hc.2 (by decide)
      · split at h
        · rename_i hc
          exact Nat.lt_of_le_of_lt hc.2 (by decide)
        · cases h
  unfold Char.utf8Size
  exact if_pos (Nat.lt_succ_iff.mp hsmall)

namespace Reader

variable {cs rest gap : List Char} {c x : Char} {n : Nat}

theorem yields_hexDigits {four : List Char} (h : HexText four n) (rest : List Char) :
    Yields hexDigits (four ++ rest) n rest := by
  refine ⟨four, rfl, fun p => ?_⟩
  cases h with
  | @mk a b c d w x y z ha hb hc hd =>
    have hpast : ∃ past, Position.afterBytes 4 (a :: b :: c :: d :: rest) p = some past := by
      simp [Position.afterBytes, utf8Size_hexValue ha, utf8Size_hexValue hb, utf8Size_hexValue hc,
        utf8Size_hexValue hd]
    have hfour : hexFour? (a :: b :: c :: d :: rest) =
        some (((w * 16 + x) * 16 + y) * 16 + z) := by
      simp only [hexFour?, Text.hexByte?, ha, hb, hc, hd, Option.bind_eq_bind, Option.bind_some,
        Option.pure_def]
      congr 1
      omega
    obtain ⟨past, hpast⟩ := hpast
    unfold hexDigits
    simp only [List.cons_append, List.nil_append, hpast, hfour]
    rfl

/-! ## Strings -/

theorem yields_skipEscape_short (h : (c, x) ∈ escapes) (rest : List Char) :
    Yields skipEscape (c :: rest) () rest := by
  refine ⟨[c], rfl, fun p => ?_⟩
  simp only [escapes, List.mem_cons, Prod.mk.injEq, List.not_mem_nil, or_false] at h
  rcases h with ⟨rfl, rfl⟩ | ⟨rfl, rfl⟩ | ⟨rfl, rfl⟩ | ⟨rfl, rfl⟩ | ⟨rfl, rfl⟩ | ⟨rfl, rfl⟩ |
    ⟨rfl, rfl⟩ | ⟨rfl, rfl⟩ <;> rfl

theorem yields_skipEscape_unit {four : List Char} (h : HexText four n) (rest : List Char) :
    Yields skipEscape ('u' :: (four ++ rest)) () rest := by
  refine (yields_peek _).bind ?_
  refine (yields_skip _ _).bind ?_
  exact (yields_hexDigits h rest).bind (.pure _ _)

theorem yields_skipText_escape {more : List Char} (h : Yields skipEscape cs () more)
    (hmore : Yields skipText more () rest) : Yields skipText ('\\' :: cs) () rest := by
  have hle := h.length_le
  refine ((yields_skip '\\' cs).bind (f := fun _ => skipEscape) h).trans hmore ?_
  intro p q hq
  replace hq : skipEscape ⟨cs, p.after '\\'⟩ = .ok ((), ⟨more, q⟩) := hq
  rw [skipText.eq_def]
  dsimp only
  rw [if_neg (by decide), if_pos rfl, hq]
  dsimp only
  rw [if_pos hle]

theorem yields_skipText_plain (hc : Plain c) (h : Yields skipText cs () rest) :
    Yields skipText (c :: cs) () rest := by
  refine (yields_skip c cs).trans h ?_
  intro p q hq
  cases hq
  obtain ⟨hquote, hslash, hcontrol⟩ := hc
  rw [skipText.eq_def]
  dsimp only
  rw [if_neg hquote, if_neg hslash, if_neg (Nat.not_lt.mpr hcontrol)]

/-- Behind its opening quote, any string literal is skipped to the end. -/
theorem yields_skipText {body : List Char} (h : StringBody body) (rest : List Char) :
    Yields skipText (body ++ '"' :: rest) () rest := by
  induction h with
  | nil =>
    refine ⟨['"'], rfl, fun p => ?_⟩
    rw [List.nil_append, skipText.eq_def]
    rfl
  | plain hc _ ih => exact yields_skipText_plain hc ih
  | short hc _ ih => exact yields_skipText_escape (yields_skipEscape_short hc _) ih
  | @unit four cs n hn _ ih =>
    rw [List.cons_append, List.cons_append, List.append_assoc]
    exact yields_skipText_escape (yields_skipEscape_unit hn _) ih

/-! ## Numbers -/

theorem yields_upcomingDigits {ds : List Char} (hds : ∀ c ∈ ds, c.isDigit = true)
    (hrest : EndBefore rest) : Yields upcomingDigits (ds ++ rest) ds (ds ++ rest) := by
  refine ⟨[], rfl, fun p => ?_⟩
  unfold upcomingDigits
  rw [takeWhile_append hds hrest]
  rfl

theorem yields_skip_all (cs rest : List Char) : Yields (skip cs.length) (cs ++ rest) () rest := by
  refine ⟨cs, rfl, fun p => ?_⟩
  unfold skip
  rw [Cursor.drop_append]

theorem yields_digits {ds : List Char} (hds : DigitsText ds) (hrest : EndBefore rest) :
    Yields digits (ds ++ rest) ds rest := by
  refine (yields_upcomingDigits hds.2 hrest).bind ?_
  exact (yields_skip_all ds rest).bind (.pure _ _)

theorem not_isEmpty {ds : List Char} (hds : DigitsText ds) : ds.isEmpty = false := by
  cases ds with
  | nil => exact absurd rfl hds.1
  | cons d ds => rfl

theorem endBefore_exponent {exponent : List Char} (h : ExponentText exponent)
    (hrest : Delimited rest) : EndBefore (exponent ++ rest) := by
  cases h with
  | none => exact hrest.endBefore
  | some he _ _ => rcases he with rfl | rfl <;> exact .cons (by decide) _

theorem head_exponent_ne_point {exponent : List Char} (h : ExponentText exponent)
    (hrest : Delimited rest) : (exponent ++ rest).head? ≠ some '.' := by
  intro hhead
  cases h with
  | none => exact (hrest '.' hhead).2.1 rfl
  | some he _ _ => rcases he with rfl | rfl <;> cases hhead

theorem endBefore_fraction {fraction exponent : List Char} (h : FractionText fraction)
    (h' : ExponentText exponent) (hrest : Delimited rest) :
    EndBefore (fraction ++ (exponent ++ rest)) := by
  cases h with
  | none =>
    rw [List.nil_append]
    exact endBefore_exponent h' hrest
  | some _ => exact .cons (by decide) _

theorem yields_skipExponent {e : Char} {sign ds : List Char}
    (hsign : sign = [] ∨ sign = ['+'] ∨ sign = ['-']) (hds : DigitsText ds)
    (hrest : Delimited rest) : Yields skipExponent (e :: (sign ++ (ds ++ rest))) () rest := by
  have hend : Yields (do let ds ← digits; if ds.isEmpty then failNext .invalidNumber : Reader Unit)
      (ds ++ rest) () rest := by
    refine (yields_digits hds hrest.endBefore).bind ?_
    rw [if_neg (by simp [not_isEmpty hds])]
    exact .pure _ _
  unfold skipExponent
  refine (yields_skip _ _).bind ?_
  refine (yields_peek _).bind ?_
  rcases hsign with rfl | rfl | rfl
  · -- the digits follow at once
    obtain ⟨hne, hdigits⟩ := hds
    cases ds with
    | nil => exact absurd rfl hne
    | cons d ds =>
      have hd : d.isDigit = true := hdigits d List.mem_cons_self
      simp only [List.nil_append, List.cons_append, List.head?_cons]
      split
      · rename_i h
        cases h
        cases hd
      · rename_i h
        cases h
        cases hd
      · exact hend
  · exact (yields_skip _ _).bind hend
  · exact (yields_skip _ _).bind hend

/-- Any number is skipped to the end, however many digits it has. -/
theorem yields_skipNumber {whole fraction exponent : List Char} (hwhole : WholeText whole)
    (hfraction : FractionText fraction) (hexponent : ExponentText exponent)
    (hrest : Delimited rest) :
    Yields skipNumber (whole ++ (fraction ++ (exponent ++ rest))) () rest := by
  unfold skipNumber
  refine (yields_peek _).bind ?_
  extract_lets toExponent toFraction
  have hexp : Yields (toExponent ()) (exponent ++ rest) () rest := by
    refine (yields_peek _).bind ?_
    cases hexponent with
    | none =>
      rw [List.nil_append]
      split
      · rename_i h
        exact absurd rfl (hrest 'e' h).2.2.1
      · rename_i h
        exact absurd rfl (hrest 'E' h).2.2.2
      · exact .pure _ _
    | @some e sign ds he hsign hds =>
      rw [List.cons_append, List.append_assoc]
      rcases he with rfl | rfl <;> exact yields_skipExponent hsign hds hrest
  have hfrac : Yields (toFraction ()) (fraction ++ (exponent ++ rest)) () rest := by
    refine (yields_peek _).bind ?_
    cases hfraction with
    | none =>
      have hhead := yields_of_peek hexp
      rw [List.nil_append]
      split
      · rename_i h
        exact absurd h (head_exponent_ne_point hexponent hrest)
      · rename_i h
        rwa [h] at hhead
      · rename_i h
        rwa [h] at hhead
      · rename_i hpoint hlower hupper
        split at hhead
        · rename_i h
          exact absurd h hlower
        · rename_i h
          exact absurd h hupper
        · exact hhead
    | @some ds hds =>
      refine (yields_skip _ _).bind ?_
      refine (yields_digits hds (endBefore_exponent hexponent hrest)).bind ?_
      rw [if_neg (by simp [not_isEmpty hds])]
      exact hexp
  obtain ⟨hdigits, hzero⟩ := hwhole
  have hend := endBefore_fraction hfraction hexponent hrest
  split
  · rename_i h
    obtain rfl : whole = ['0'] := by
      apply hzero
      cases whole with
      | nil => exact absurd rfl hdigits.1
      | cons d ds => exact h
    refine (yields_skip _ _).bind ?_
    exact (yields_upcomingDigits (List.forall_mem_nil _) hend).bind hfrac
  · refine (yields_digits hdigits hend).bind ?_
    rw [if_neg (by simp [not_isEmpty hdigits])]
    exact hfrac

/-! ## Scalars -/

theorem yields_literal (cs rest : List Char) : Yields (literal cs) (cs ++ rest) () rest := by
  induction cs with
  | nil => exact .pure _ _
  | cons c cs ih =>
    unfold literal
    refine (yields_peek _).bind ?_
    simp only [List.cons_append, List.head?_cons, if_true]
    exact (yields_skip _ _).bind ih

/-! ## The open frames -/

/-- Skips the key of the next element, if the innermost frame is an object. -/
def keyed (left : List Frame) : Reader (List Frame) := do
  match left with
  | .object :: _ => skipKey
  | _ => pure ()
  pure left

/-- With these frames open and this text to come, `rest` is what is left in the end. -/
def Goes (left : List Frame) (cs rest : List Char) : Prop :=
  match left with
  | [] => cs = rest
  | frame :: outer => Yields (skipFrom (frame :: outer)) cs () rest

/-- Within these frames, what closes and the key of what comes next is read, and `rest` is left in
the end. The flag tells whether a value stands before the text. -/
def Resumes (enclosing : List Frame) (after : Bool) (cs rest : List Char) : Prop :=
  ∃ left cs₁ cs₂, Yields (skipClosings enclosing after) cs left cs₁ ∧
    Yields (keyed left) cs₁ left cs₂ ∧ Goes left cs₂ rest

variable {enclosing : List Frame} {frame : Frame} {after first : Bool} {more : List Char}

theorem resumes_nil (after : Bool) (cs : List Char) : Resumes [] after cs cs :=
  ⟨[], cs, cs, .pure _ _, .pure _ _, rfl⟩

theorem yields_skipFrom {left : List Frame} (hstep : Yields (skipStep enclosing) cs left more)
    (hlt : more.length < cs.length) (hgoes : Goes left more rest) :
    Yields (skipFrom enclosing) cs () rest := by
  cases left with
  | nil =>
    obtain rfl : more = rest := hgoes
    refine hstep.trans (.pure () more) ?_
    intro p q hq
    rw [skipFrom.eq_def, hq]
    rfl
  | cons frame outer =>
    refine hstep.trans hgoes ?_
    intro p q hq
    rw [skipFrom.eq_def, hq]
    dsimp only
    rw [if_pos hlt]

/-- A scalar is skipped, and then what follows it. -/
theorem yields_skipFrom_scalar (hopen : Yields skipOpening cs none more)
    (hlt : more.length < cs.length) (h : Resumes enclosing true more rest) :
    Yields (skipFrom enclosing) cs () rest := by
  obtain ⟨left, cs₁, cs₂, hclose, hkey, hgoes⟩ := h
  have hle := (hclose.bind (f := keyed) hkey).length_le
  exact yields_skipFrom (hopen.bind (hclose.bind hkey)) (by omega) hgoes

/-- An opening bracket is skipped, and then what it opens. -/
theorem yields_skipFrom_opening (hopen : Yields skipOpening cs (some frame) more)
    (hlt : more.length < cs.length) (h : Resumes (frame :: enclosing) false more rest) :
    Yields (skipFrom enclosing) cs () rest := by
  obtain ⟨left, cs₁, cs₂, hclose, hkey, hgoes⟩ := h
  have hle := (hclose.bind (f := keyed) hkey).length_le
  exact yields_skipFrom (hopen.bind (hclose.bind hkey)) (by omega) hgoes

theorem closing_ne_comma (frame : Frame) : frame.closing ≠ ',' := by
  cases frame <;> decide

theorem closing_mem (frame : Frame) : frame.closing ∈ [':', ',', ']', '\x7d'] := by
  cases frame <;> decide

theorem isSpace_closing (frame : Frame) : isSpace frame.closing = false := by
  cases frame <;> decide

theorem resumes_closing (hgap : Gap gap) (after : Bool) (h : Resumes enclosing true more rest) :
    Resumes (frame :: enclosing) after (gap ++ frame.closing :: more) rest := by
  obtain ⟨left, cs₁, cs₂, hclose, hkey, hgoes⟩ := h
  refine ⟨left, cs₁, cs₂, ?_, hkey, hgoes⟩
  unfold skipClosings
  refine (token_gap.yields hgap (yields_token (isSpace_closing frame) more)).bind ?_
  dsimp only
  rw [if_neg (fun h => closing_ne_comma frame h.1), if_pos rfl]
  exact (yields_skip _ _).bind hclose

/-- A value that is skipped whatever frames it stands in. -/
def Skipped (v : List Char) : Prop :=
  ∀ enclosing gap more rest, Gap gap → Delimited more → Resumes enclosing true more rest →
    Yields (skipFrom enclosing) (gap ++ (v ++ more)) () rest

/-- A piece of a frame leads to a value that is skipped. -/
structure Enters (frame : Frame) (piece v : List Char) : Prop where
  /-- It does not begin as white space or as the end of the frame does. -/
  head : ∃ c cs, piece = c :: cs ∧ isSpace c = false ∧ c ≠ frame.closing
  /-- The reader comes to the value. -/
  key : ∀ enclosing gap more, Gap gap → ∃ gap', Gap gap' ∧
    Yields (keyed (frame :: enclosing)) (gap ++ (piece ++ more)) (frame :: enclosing)
      (gap' ++ (v ++ more))
  /-- The value is skipped. -/
  skipped : Skipped v

theorem resumes_piece {lead piece v : List Char} (hlead : Lead first lead)
    (henter : Enters frame piece v) (hmore : Delimited more)
    (h : Resumes (frame :: enclosing) true more rest) :
    Resumes (frame :: enclosing) (!first) (lead ++ (piece ++ more)) rest := by
  cases hlead with
  | @first gap hgap =>
    obtain ⟨c, cs, rfl, hspace, hclosing⟩ := henter.head
    obtain ⟨gap', hgap', hkey⟩ := henter.key enclosing [] more (List.forall_mem_nil _)
    refine ⟨frame :: enclosing, _, _, ?_, hkey, henter.skipped _ _ _ _ hgap' hmore h⟩
    unfold skipClosings
    refine (token_gap.yields hgap (yields_token hspace _)).bind ?_
    dsimp only
    rw [if_neg (by simp), if_neg hclosing, if_neg (by simp)]
    exact .pure _ _
  | @next gap gap' hgap hgap' =>
    obtain ⟨gap'', hgap'', hkey⟩ := henter.key enclosing gap' more hgap'
    refine ⟨frame :: enclosing, _, _, ?_, hkey, henter.skipped _ _ _ _ hgap'' hmore h⟩
    rw [List.append_assoc, List.cons_append]
    unfold skipClosings
    refine (token_gap.yields hgap (yields_token (by decide) _)).bind ?_
    dsimp only
    rw [if_pos ⟨rfl, rfl⟩]
    exact (yields_skip _ _).bind (.pure _ _)

theorem resumes_listed (frame : Frame) {α : Type} {Piece : α → List Char → Prop}
    {items : List α} {inner : List Char} (hlisted : Listed Piece first items inner)
    (henter : ∀ a ∈ items, ∀ cs, Piece a cs → ∃ v, Enters frame cs v)
    (h : Resumes enclosing true more rest) :
    Resumes (frame :: enclosing) (!first) (inner ++ frame.closing :: more) rest := by
  induction hlisted with
  | nil hgap => exact resumes_closing hgap _ h
  | @cons first lead cs tail a as hlead hpiece htail ih =>
    obtain ⟨hhead, hrest⟩ := List.forall_mem_cons.mp henter
    obtain ⟨v, hv⟩ := hhead cs hpiece
    rw [List.append_assoc, List.append_assoc]
    exact resumes_piece hlead hv (htail.delimited (closing_mem frame) _) (ih hrest)

/-! ## Values -/

theorem isSpace_digit {d : Char} (h : d.isDigit = true) : isSpace d = false := by
  unfold isSpace
  simp only [Bool.or_eq_false_iff, beq_eq_false_iff_ne]
  refine ⟨⟨⟨?_, ?_⟩, ?_⟩, ?_⟩ <;> (rintro rfl; cases h)

theorem exists_digit {ds : List Char} (h : DigitsText ds) :
    ∃ d ds', ds = d :: ds' ∧ d.isDigit = true := by
  cases ds with
  | nil => exact absurd rfl h.1
  | cons d ds' => exact ⟨d, ds', rfl, h.2 d List.mem_cons_self⟩

theorem head_json {v : List Char} (h : JsonText v) :
    ∃ c cs, v = c :: cs ∧ isSpace c = false ∧ c ≠ ']' := by
  cases h with
  | null => exact ⟨_, _, rfl, by decide, by decide⟩
  | true => exact ⟨_, _, rfl, by decide, by decide⟩
  | false => exact ⟨_, _, rfl, by decide, by decide⟩
  | number h =>
    obtain ⟨hsign, hwhole, -, -⟩ := h
    rcases hsign with rfl | rfl
    · obtain ⟨d, ds, rfl, hd⟩ := exists_digit hwhole.1
      refine ⟨d, _, rfl, isSpace_digit hd, ?_⟩
      rintro rfl
      cases hd
    · exact ⟨_, _, rfl, by decide, by decide⟩
  | string h =>
    obtain ⟨body, -, rfl⟩ := h
    exact ⟨_, _, rfl, by decide, by decide⟩
  | list _ _ => exact ⟨_, _, rfl, by decide, by decide⟩
  | object _ _ _ => exact ⟨_, _, rfl, by decide, by decide⟩

theorem enters_item {v : List Char} (hjson : JsonText v) (h : Skipped v) :
    Enters .list v v where
  head := head_json hjson
  key _ gap _ hgap := ⟨gap, hgap, .pure _ _⟩
  skipped := h

theorem enters_member {key v piece : List Char} (hkey : StringText key)
    (hpiece : MemberText (key, v) piece) (h : Skipped v) : Enters .object piece v := by
  obtain ⟨body, hbody, rfl⟩ := hkey
  cases hpiece with
  | @mk _ _ gap gap' hgap hgap' =>
    refine ⟨⟨'"', _, rfl, by decide, by decide⟩, ?_, h⟩
    intro enclosing lead more hlead
    refine ⟨gap', hgap', ?_⟩
    have htext : Yields skipText (body ++ '"' :: (gap ++ ':' :: (gap' ++ (v ++ more)))) () _ :=
      yields_skipText hbody _
    have hkey : Yields skipKey
        (lead ++ ('"' :: (body ++ ['"']) ++ (gap ++ ':' :: (gap' ++ v)) ++ more)) ()
        (gap' ++ (v ++ more)) := by
      simp only [List.append_assoc, List.cons_append, List.nil_append]
      unfold skipKey
      refine (token_gap.yields hlead (yields_token (by decide) _)).bind ?_
      refine (yields_skip _ _).bind (htext.bind ?_)
      refine (token_gap.yields hgap (yields_token (by decide) _)).bind ?_
      exact yields_skip _ _
    exact hkey.bind (.pure _ _)

theorem skipOpening_gap : SkipsGap skipOpening := token_gap.bind _

theorem skipped_of_opening {v : List Char} (hne : v ≠ [])
    (h : ∀ more, Delimited more → Yields skipOpening (v ++ more) none more) : Skipped v := by
  intro enclosing gap more rest hgap hmore hresumes
  have hlt : more.length < (gap ++ (v ++ more)).length := by
    have := List.length_pos_of_ne_nil hne
    simp only [List.length_append]
    omega
  exact yields_skipFrom_scalar (skipOpening_gap.yields hgap (h more hmore)) hlt hresumes

/-- Every value is skipped to its end. -/
theorem skipped_json {v : List Char} (h : JsonText v) : Skipped v := by
  induction h with
  | null =>
    refine skipped_of_opening (by simp) fun more _ => ?_
    refine (yields_token (by decide) _).bind ?_
    exact (yields_skip _ _).bind ((yields_literal _ more).bind (.pure _ _))
  | true =>
    refine skipped_of_opening (by simp) fun more _ => ?_
    refine (yields_token (by decide) _).bind ?_
    exact (yields_skip _ _).bind ((yields_literal _ more).bind (.pure _ _))
  | false =>
    refine skipped_of_opening (by simp) fun more _ => ?_
    refine (yields_token (by decide) _).bind ?_
    exact (yields_skip _ _).bind ((yields_literal _ more).bind (.pure _ _))
  | number h =>
    obtain ⟨hsign, hwhole, hfraction, hexponent⟩ := h
    obtain ⟨d, ds, hds, hd⟩ := exists_digit hwhole.1
    refine skipped_of_opening (by simp [hds]) fun more hmore => ?_
    have hnumber := yields_skipNumber hwhole hfraction hexponent hmore
    simp only [List.append_assoc]
    rcases hsign with rfl | rfl
    · rw [hds] at hnumber ⊢
      refine (yields_token (isSpace_digit hd) _).bind ?_
      -- a digit is no other character that a value begins with
      split <;> rename_i h <;> cases h
      iterate 7
        · cases hd
      rw [if_pos hd]
      exact hnumber.bind (.pure _ _)
    · refine (yields_token (by decide) _).bind ?_
      exact (yields_skip _ _).bind (hnumber.bind (.pure _ _))
  | string h =>
    obtain ⟨body, hbody, rfl⟩ := h
    refine skipped_of_opening (by simp) fun more _ => ?_
    rw [List.cons_append, List.append_assoc]
    refine (yields_token (by decide) _).bind ?_
    exact (yields_skip _ _).bind ((yields_skipText hbody more).bind (.pure _ _))
  | @list items cs hlist hitems ih =>
    intro enclosing gap more rest hgap hmore hresumes
    have henter : ∀ a ∈ items, ∀ cs, a = cs → ∃ v, Enters .list cs v := by
      rintro a ha cs rfl
      exact ⟨a, enters_item (hitems a ha) (ih a ha)⟩
    have hinner := resumes_listed .list hlist henter hresumes
    have hopen : Yields skipOpening ('[' :: (cs ++ ']' :: more)) (some .list) (cs ++ ']' :: more) :=
      (yields_token (by decide) _).bind ((yields_skip _ _).bind (.pure _ _))
    rw [List.cons_append, List.append_assoc]
    exact yields_skipFrom_opening (skipOpening_gap.yields hgap hopen) (by simp; omega) hinner
  | @object members cs hmembers hkeys hvalues ih =>
    intro enclosing gap more rest hgap hmore hresumes
    have henter : ∀ m ∈ members, ∀ cs, MemberText m cs → ∃ v, Enters .object cs v := by
      intro m hm cs hcs
      exact ⟨m.2, enters_member (hkeys m hm) hcs (ih m hm)⟩
    have hinner := resumes_listed .object hmembers henter hresumes
    have hopen : Yields skipOpening ('\x7b' :: (cs ++ '\x7d' :: more)) (some .object)
        (cs ++ '\x7d' :: more) :=
      (yields_token (by decide) _).bind ((yields_skip _ _).bind (.pure _ _))
    rw [List.cons_append, List.append_assoc]
    exact yields_skipFrom_opening (skipOpening_gap.yields hgap hopen) (by simp; omega) hinner

/-- A value is skipped to its last character, with the white space before it. -/
theorem yields_skipValue {v more : List Char} (hgap : Gap gap) (h : JsonText v)
    (hmore : Delimited more) : Yields skipValue (gap ++ (v ++ more)) () more :=
  skipped_json h [] gap more more hgap hmore (resumes_nil _ _)

end Reader

end Pinboard.Json
