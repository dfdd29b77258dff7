import Pinboard.Json.Record
import Pinboard.Proofs.Digits
import Pinboard.Proofs.Grammar

/-!
# What readers do to a text

Two ways to speak of a reader and of the characters before it, wherever in a file they stand: it
makes a value and leaves a rest (`Yields`), or whatever it makes has a property (`Ensures`), which
says nothing where it stops. Both follow the reader from step to step, and white space before a
token makes no difference to either (`SkipsGap`). A reader that yields a value whatever comes behind
it takes the value off the text (`Takes`); only behind a number it matters what comes, since digits
would continue it, and so would a point or an exponent (`Delimited`).
-/

namespace Pinboard.Json

open Digits

variable {α β : Type} {r : Reader α} {f : α → Reader β} {cs rest gap : List Char} {a : α} {b : β}

/-- From these characters the reader makes `a` and leaves `rest`, past the characters it took. -/
def Yields (r : Reader α) (cs : List Char) (a : α) (rest : List Char) : Prop :=
  ∃ taken, cs = taken ++ rest ∧ ∀ p, r ⟨cs, p⟩ = .ok (a, ⟨rest, taken.foldl Position.after p⟩)

/-- What comes next does not continue a number. -/
def Delimited (rest : List Char) : Prop :=
  ∀ c ∈ rest.head?, c.isDigit = false ∧ c ≠ '.' ∧ c ≠ 'e' ∧ c ≠ 'E'

theorem Delimited.endBefore {rest : List Char} (h : Delimited rest) : EndBefore rest :=
  fun c hc => (h c hc).1

theorem Delimited.nil : Delimited [] := by
  intro c hc
  cases hc

/-- What stands between values delimits them. -/
theorem Delimited.cons {c : Char} (hc : c ∈ [':', ',', ']', '\x7d']) (rest : List Char) :
    Delimited (c :: rest) := by
  intro c' hc'
  cases hc'
  simp only [List.mem_cons, List.not_mem_nil, or_false] at hc
  rcases hc with rfl | rfl | rfl | rfl <;> decide

/-- A reader takes some characters off a text and makes a value of them. -/
def Takes {α : Type} (r : Reader α) (cs : List Char) (a : α) : Prop :=
  ∀ rest p, Delimited rest → r ⟨cs ++ rest, p⟩ = .ok (a, ⟨rest, cs.foldl Position.after p⟩)

/-- Whatever the reader makes of these characters, `Q` holds of it and of the rest. -/
def Ensures (r : Reader α) (cs : List Char) (Q : α → List Char → Prop) : Prop :=
  ∀ p a c, r ⟨cs, p⟩ = .ok (a, c) → Q a c.rest

/-! ## Steps -/

theorem Takes.yields (h : Takes r cs a) (hrest : Delimited rest) : Yields r (cs ++ rest) a rest :=
  ⟨cs, rfl, fun p => h rest p hrest⟩

theorem Takes.of_yields (h : ∀ rest, Delimited rest → Yields r (cs ++ rest) a rest) :
    Takes r cs a := by
  intro rest p hrest
  obtain ⟨taken, htaken, hr⟩ := h rest hrest
  obtain rfl := List.append_cancel_right htaken
  exact hr p

theorem Takes.map (h : Takes r cs a) (f : α → β) : Takes (do pure (f (← r))) cs (f a) := by
  intro rest p hrest
  rw [bind_of_ok (h rest p hrest)]
  rfl

namespace Yields

theorem run (h : Yields r cs a rest) (p : Position) : ∃ q, r ⟨cs, p⟩ = .ok (a, ⟨rest, q⟩) := by
  obtain ⟨taken, -, hr⟩ := h
  exact ⟨_, hr p⟩

theorem length_le (h : Yields r cs a rest) : rest.length ≤ cs.length := by
  obtain ⟨taken, rfl, -⟩ := h
  simp

/-- What one reader has read, another goes on with. -/
theorem trans {r' : Reader β} {r'' : Reader β} {mid : List Char} (h : Yields r cs a mid)
    (h' : Yields r' mid b rest)
    (heq : ∀ p q, r ⟨cs, p⟩ = .ok (a, ⟨mid, q⟩) → r'' ⟨cs, p⟩ = r' ⟨mid, q⟩) :
    Yields r'' cs b rest := by
  obtain ⟨taken, rfl, hr⟩ := h
  obtain ⟨taken', rfl, hr'⟩ := h'
  refine ⟨taken ++ taken', by simp, fun p => ?_⟩
  rw [heq p _ (hr p), hr', List.foldl_append]

theorem bind {mid : List Char} (h : Yields r cs a mid) (h' : Yields (f a) mid b rest) :
    Yields (r >>= f) cs b rest :=
  h.trans h' fun _ _ hr => bind_of_ok hr

theorem pure (a : α) (cs : List Char) : Yields (Pure.pure a) cs a cs := ⟨[], rfl, fun _ => rfl⟩

theorem map (h : Yields r cs a rest) (g : α → β) : Yields (g <$> r) cs (g a) rest := by
  rw [map_eq_pure_bind]
  exact h.bind (.pure _ _)

theorem located (h : Yields r cs a rest) : Yields (Reader.located r) cs a rest := by
  obtain ⟨taken, htaken, hr⟩ := h
  refine ⟨taken, htaken, fun p => ?_⟩
  unfold Reader.located
  rw [hr p]

end Yields

namespace Ensures

variable {Q : α → List Char → Prop} {R : β → List Char → Prop}

theorem bind (h : Ensures r cs Q) (h' : ∀ a rest, Q a rest → Ensures (f a) rest R) :
    Ensures (r >>= f) cs R := by
  intro p b c hb
  replace hb : (r ⟨cs, p⟩ >>= fun x => f x.1 x.2) = .ok (b, c) := hb
  cases hr : r ⟨cs, p⟩ with
  | error stop =>
    rw [hr] at hb
    cases hb
  | ok x =>
    rw [hr] at hb
    exact h' x.1 x.2.rest (h p x.1 x.2 hr) x.2.position b c hb

theorem pure {a : α} (h : Q a cs) : Ensures (Pure.pure a) cs Q := by
  intro p a' c ha
  cases ha
  exact h

theorem fail (p : Problem) : Ensures (Reader.fail p) cs Q := by
  intro _ _ _ h
  cases h

theorem failNext (p : Problem) : Ensures (Reader.failNext p) cs Q := by
  intro _ _ _ h
  cases h

theorem complain (p : Problem) : Ensures (Reader.complain p) cs Q := by
  intro _ _ _ h
  cases h

theorem mono {Q' : α → List Char → Prop} (h : Ensures r cs Q)
    (himp : ∀ a rest, Q a rest → Q' a rest) : Ensures r cs Q' :=
  fun p a c hr => himp a c.rest (h p a c hr)

theorem map {g : α → β} (h : Ensures r cs fun a rest => R (g a) rest) : Ensures (g <$> r) cs R := by
  rw [map_eq_pure_bind]
  exact h.bind fun _ _ hR => .pure hR

theorem located (h : Ensures r cs Q) : Ensures (Reader.located r) cs Q := by
  intro p a c hr
  unfold Reader.located at hr
  cases hrun : r ⟨cs, p⟩ with
  | ok x =>
    rw [hrun] at hr
    cases hr
    exact h p a c hrun
  | error stop =>
    rw [hrun] at hr
    cases stop <;> cases hr

end Ensures

/-- What a reader yields is all that it can make. -/
theorem Yields.ensures (h : Yields r cs a rest) :
    Ensures r cs fun a' rest' => a' = a ∧ rest' = rest := by
  intro p a' c hr
  obtain ⟨q, hq⟩ := h.run p
  rw [hq] at hr
  cases hr
  exact ⟨rfl, rfl⟩

/-! ## White space -/

theorem Gap.isSpace (h : Gap gap) : ∀ c ∈ gap, Reader.isSpace c = true := by
  intro c hc
  rcases h c hc with rfl | rfl | rfl | rfl <;> rfl

theorem Gap.delimited (h : Gap gap) : Delimited gap := by
  intro c hc
  rcases h c (List.mem_of_mem_head? hc) with rfl | rfl | rfl | rfl <;> decide

/-- White space before what the reader takes makes no difference. -/
def SkipsGap (r : Reader α) : Prop :=
  ∀ gap cs p, Gap gap → r ⟨gap ++ cs, p⟩ = r ⟨cs, gap.foldl Position.after p⟩

namespace SkipsGap

theorem bind (h : SkipsGap r) (f : α → Reader β) : SkipsGap (r >>= f) := by
  intro gap cs p hgap
  show (r _ >>= fun x => f x.1 x.2) = (r _ >>= fun x => f x.1 x.2)
  rw [h gap cs p hgap]

theorem located (h : SkipsGap r) : SkipsGap (Reader.located r) := by
  intro gap cs p hgap
  unfold Reader.located
  rw [h gap cs p hgap]

theorem yields (h : SkipsGap r) (hgap : Gap gap) (hr : Yields r cs a rest) :
    Yields r (gap ++ cs) a rest := by
  obtain ⟨taken, rfl, hr⟩ := hr
  refine ⟨gap ++ taken, by simp, fun p => ?_⟩
  rw [h gap _ p hgap, hr, List.foldl_append]

theorem ensures {Q : α → List Char → Prop} (h : SkipsGap r) (hgap : Gap gap)
    (hr : Ensures r cs Q) : Ensures r (gap ++ cs) Q := by
  intro p a c ha
  rw [h gap cs p hgap] at ha
  exact hr _ a c ha

end SkipsGap

namespace Reader

theorem blanks_gap : SkipsGap blanks := by
  intro gap cs p hgap
  induction gap generalizing p with
  | nil => rfl
  | cons c gap ih =>
    obtain ⟨hc, hrest⟩ := List.forall_mem_cons.mp hgap
    have hspace : isSpace c = true := Gap.isSpace hgap c List.mem_cons_self
    rw [List.foldl_cons, ← ih (p.after c) hrest]
    unfold blanks
    rw [List.cons_append, List.takeWhile_cons_of_pos hspace]
    rfl

theorem token_gap : SkipsGap token := blanks_gap.bind _

theorem yields_peek (cs : List Char) : Yields peek cs cs.head? cs := ⟨[], rfl, fun _ => rfl⟩

theorem yields_skip (c : Char) (rest : List Char) : Yields (skip 1) (c :: rest) () rest :=
  ⟨[c], rfl, fun _ => rfl⟩

theorem yields_token {c : Char} (hc : isSpace c = false) (rest : List Char) :
    Yields token (c :: rest) (some c) (c :: rest) := by
  have hblanks : Yields blanks (c :: rest) () (c :: rest) := by
    refine ⟨[], rfl, fun p => ?_⟩
    unfold blanks
    rw [List.takeWhile_cons_of_neg (by simp [hc])]
    rfl
  exact hblanks.bind (yields_peek _)

theorem yields_of_peek {f : Option Char → Reader β} (h : Yields (peek >>= f) cs b rest) :
    Yields (f cs.head?) cs b rest := h

variable {Form : List Char → Prop} {s : String}

end Reader

end Pinboard.Json
