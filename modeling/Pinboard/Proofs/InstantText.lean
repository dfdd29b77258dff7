import Pinboard.Proofs.Calendar
import Pinboard.Proofs.Digits

/-!
# Reading back written instants

An instant that was written is read back, whatever its year and its nanoseconds. Only a leap second
that does not end a minute is lost: it is written like the second after it, and read as that one
(`Instant.asWritten`). Each part of the text is taken off by the reader of that part, and the parts
are put together again by way of the calendar.
-/

namespace Pinboard.Time

open Digits

variable {rest ds : List Char} {width n : Nat}

/-! ## Numbers and separators -/

namespace Scan

theorem number_of_leading {w : Option Nat} (hds : leadingDigits w (ds ++ rest) = ds)
    (hne : ds ≠ []) (hvalue : Nat.ofDigitChars 10 ds 0 ≤ greatestNumber) :
    number w (ds ++ rest) = .ok (Nat.ofDigitChars 10 ds 0, rest) := by
  have hempty : (ds ++ rest).isEmpty = false := by simp [hne]
  have hsome : ds.isEmpty = false := by simp [hne]
  unfold number
  dsimp only
  rw [hds, hempty, hsome, if_neg Bool.false_ne_true, if_neg Bool.false_ne_true,
    if_neg (Nat.not_lt.mpr hvalue), List.drop_left]

/-- Up to a width, digits are read as far as there are any. -/
theorem leadingDigits_padded {w : Nat} (hn : n < 10 ^ width) (hwidth : 0 < width)
    (hend : width = w ∨ width ≤ w ∧ EndBefore rest) :
    leadingDigits (some w) (padded width n ++ rest) = padded width n := by
  have hlength := length_padded hwidth hn
  unfold leadingDigits
  dsimp only
  rcases hend with rfl | ⟨hle, hend⟩
  · rw [List.takeWhile_append_of_pos fun c hc => isDigit_padded hc]
    exact List.take_left' hlength
  · rw [takeWhile_append (fun c hc => isDigit_padded hc) hend]
    exact List.take_of_length_le (by omega)

theorem number_padded {w : Nat} (hn : n < 10 ^ width) (hwidth : 0 < width)
    (hend : width = w ∨ width ≤ w ∧ EndBefore rest) (hvalue : n ≤ greatestNumber) :
    number (some w) (padded width n ++ rest) = .ok (n, rest) := by
  have hread : Nat.ofDigitChars 10 (padded width n) 0 = n := ofDigitChars_padded
  rw [number_of_leading (leadingDigits_padded hn hwidth hend) padded_ne_nil (by omega), hread]

/-- Without a width, digits are read to their end. -/
theorem number_none (hend : EndBefore rest) (hvalue : n ≤ greatestNumber) :
    number none (padded width n ++ rest) = .ok (n, rest) := by
  have hread : Nat.ofDigitChars 10 (padded width n) 0 = n := ofDigitChars_padded
  have hleading : leadingDigits none (padded width n ++ rest) = padded width n :=
    takeWhile_append (fun c hc => isDigit_padded hc) hend
  rw [number_of_leading hleading padded_ne_nil (by omega), hread]

theorem blanks_of_head {c : Char} (hc : Text.isBlank c = false) (rest : List Char) :
    blanks (c :: rest) = .ok ((), c :: rest) := by
  unfold blanks Text.skipBlank
  rw [List.dropWhile_cons_of_neg (by simp [hc])]

theorem blanks_padded : blanks (padded width n ++ rest) = .ok ((), padded width n ++ rest) := by
  cases hds : padded width n with
  | nil => exact absurd hds padded_ne_nil
  | cons c ds =>
    have hdigit : c.isDigit = true := isDigit_padded (hds ▸ List.mem_cons_self)
    exact blanks_of_head (isBlank_of_isDigit hdigit) _

theorem field_padded {low high : Nat} (hlow : low ≤ n) (hhigh : n ≤ high) (hn : n < 100) :
    field low high (padded 2 n ++ rest) = .ok (n, rest) := by
  have hnumber : number (some 2) (padded 2 n ++ rest) = .ok (n, rest) :=
    number_padded hn (by omega) (Or.inl rfl) (by unfold greatestNumber; omega)
  unfold field
  rw [bind_of_ok blanks_padded, bind_of_ok hnumber, if_pos ⟨hlow, hhigh⟩]
  rfl

theorem separator_cons {c : Char} (hc : Text.isBlank c = false) (rest : List Char) :
    separator c (c :: rest) = .ok ((), rest) := by
  unfold separator
  rw [bind_of_ok (blanks_of_head hc rest)]
  simp [mark]

theorem mark_cons {test : Char → Bool} {c : Char} (hc : test c = true) (rest : List Char) :
    mark test (c :: rest) = .ok ((), rest) := by
  unfold mark
  dsimp only
  rw [if_pos hc]

/-! ## Years -/

theorem head_padded (width n : Nat) :
    ∃ c ds, padded width n = c :: ds ∧ c ≠ '-' ∧ c ≠ '+' ∧ Text.isBlank c = false := by
  cases hds : padded width n with
  | nil => exact absurd hds padded_ne_nil
  | cons c ds =>
    have hdigit : c.isDigit = true := isDigit_padded (hds ▸ List.mem_cons_self)
    refine ⟨c, ds, rfl, ?_, ?_, isBlank_of_isDigit hdigit⟩ <;> (rintro rfl; cases hdigit)

theorem checked_of_ok {x : Scan Int} {cs : List Char} {y : Int} (h : x cs = .ok (y, rest))
    (hbounds : yearInBounds y = true) :
    (do let y ← x; if yearInBounds y then pure y else fail .outOfRange : Scan Int) cs =
      .ok (y, rest) := by
  rw [bind_of_ok h, if_pos hbounds]
  rfl

theorem year_yearText {y : Int} (hlow : -262143 ≤ y) (hhigh : y ≤ 262142)
    (hend : EndBefore rest) : year (yearText y ++ rest) = .ok (y, rest) := by
  have hbounds : yearInBounds y = true := by
    unfold yearInBounds
    simp only [Bool.and_eq_true, decide_eq_true_eq]
    omega
  unfold yearText year
  by_cases hplain : 0 ≤ y ∧ y ≤ 9999
  · have hn : y.toNat < 10 ^ 4 := by omega
    have hnumber : number (some 4) (padded 4 y.toNat ++ rest) = .ok (y.toNat, rest) :=
      number_padded hn (by omega) (Or.inl rfl) (by unfold greatestNumber; omega)
    obtain ⟨c, ds, hds, hminus, hplus, -⟩ := head_padded 4 y.toNat
    have hy : (y.toNat : Int) = y := by omega
    rw [if_pos hplain, bind_of_ok blanks_padded]
    rw [hds] at hnumber ⊢
    have hread : (do let n ← number (some 4); pure (n : Int) : Scan Int) (c :: ds ++ rest) =
        .ok (y, rest) := by
      rw [bind_of_ok hnumber, hy]
      rfl
    refine checked_of_ok ?_ hbounds
    split
    · rename_i heq
      exact absurd (List.cons.inj heq).1 hminus
    · rename_i heq
      exact absurd (List.cons.inj heq).1 hplus
    · exact hread
  · have hnumber : number none (padded 4 y.natAbs ++ rest) = .ok (y.natAbs, rest) :=
      number_none hend (by unfold greatestNumber; omega)
    rw [if_neg hplain]
    by_cases hneg : y < 0
    · have hy : -(y.natAbs : Int) = y := by omega
      have hread : (do let n ← number none; pure (-(n : Int)) : Scan Int)
          (padded 4 y.natAbs ++ rest) = .ok (y, rest) := by
        rw [bind_of_ok hnumber, hy]
        rfl
      rw [if_pos hneg, List.cons_append, bind_of_ok (blanks_of_head (by decide) _)]
      exact checked_of_ok hread hbounds
    · have hy : (y.natAbs : Int) = y := by omega
      have hread : (do let n ← number none; pure (n : Int) : Scan Int)
          (padded 4 y.natAbs ++ rest) = .ok (y, rest) := by
        rw [bind_of_ok hnumber, hy]
        rfl
      rw [if_neg hneg, List.cons_append, bind_of_ok (blanks_of_head (by decide) _)]
      exact checked_of_ok hread hbounds

/-! ## Fractions -/

theorem fraction_padded (hwidth : 0 < width) (hle : width ≤ 9) (hn : n < 10 ^ width)
    (hend : EndBefore rest) :
    fraction ('.' :: padded width n ++ rest) = .ok (n * 10 ^ (9 - width), rest) := by
  have hgreatest : 10 ^ width ≤ 10 ^ 9 := Nat.pow_le_pow_right (by omega) hle
  have hnumber : number (some 9) (padded width n ++ rest) = .ok (n, rest) :=
    number_padded hn hwidth (Or.inr ⟨hle, hend⟩) (by unfold greatestNumber; omega)
  have hlength : (padded width n ++ rest).length - rest.length = width := by
    rw [List.length_append, length_padded hwidth hn]
    omega
  unfold fraction
  rw [List.cons_append]
  split
  · rename_i heq
    obtain ⟨-, rfl⟩ := List.cons.inj heq
    rw [hnumber]
    dsimp only
    rw [hlength, dropWhile_of_end hend]
    rfl
  · rename_i hother
    exact absurd rfl (hother _)

theorem fraction_fractionText {nano : Nat} (hnano : nano < 1000000000) (hend : EndBefore rest)
    (hpoint : ∀ c ∈ rest.head?, c ≠ '.') :
    fraction (fractionText nano ++ rest) = .ok (nano, rest) := by
  unfold fractionText
  by_cases hzero : nano = 0
  · rw [if_pos hzero, List.nil_append, hzero]
    cases rest with
    | nil => rfl
    | cons c rest =>
      unfold fraction
      split
      · rename_i heq
        exact absurd (List.cons.inj heq).1 (hpoint c rfl)
      · rfl
  rw [if_neg hzero]
  split
  · rename_i hmillis
    rw [fraction_padded (by omega) (by omega) (by omega) hend]
    have hvalue : nano / 1000000 * 10 ^ (9 - 3) = nano := by omega
    rw [hvalue]
  split
  · rename_i hmicros
    rw [fraction_padded (by omega) (by omega) (by omega) hend]
    have hvalue : nano / 1000 * 10 ^ (9 - 6) = nano := by omega
    rw [hvalue]
  · rw [fraction_padded (by omega) (by omega) (by omega) hend]
    have hvalue : nano * 10 ^ (9 - 9) = nano := by omega
    rw [hvalue]

end Scan

/-! ## Instants -/

/-- What the text of an instant says. -/
def Instant.parts (t : Instant) : Scan.Parts :=
  let ofDay := (t.second % 86400).toNat
  ⟨Date.ofDay (t.second / 86400), ofDay / 3600, ofDay / 60 % 60,
    ofDay % 60 + t.nano / 1000000000, t.nano % 1000000000, 0⟩

theorem Instant.year_bounds (t : Instant) : -262143 ≤ (Date.ofDay (t.second / 86400)).year ∧
    (Date.ofDay (t.second / 86400)).year ≤ 262142 := by
  obtain ⟨hlow, hhigh, -⟩ := t.inRange
  exact Date.year_ofDay (Int.ediv_le_ediv (by omega) hlow) (Int.ediv_le_ediv (by omega) hhigh)

namespace Instant

/-- The text shows a leap second as such, or there is none to show. -/
def Shown (t : Instant) : Prop := LeapEndsMinute t.second t.nano

instance (t : Instant) : Decidable t.Shown := inferInstanceAs (Decidable (LeapEndsMinute _ _))

theorem inRange_next {t : Instant} (h : ¬ t.Shown) :
    InRange (t.second + 1) (t.nano - 1000000000) := by
  obtain ⟨hearliest, hlatest, hnano⟩ := t.inRange
  unfold Shown LeapEndsMinute at h
  have hlast : latestSecond % 60 = 59 := by decide
  exact ⟨by omega, by omega, by omega⟩

/-- The instant that the text of an instant stands for: where the leap second is not shown, the
moment that is as far into the second after it. -/
def asWritten (t : Instant) : Instant :=
  if h : t.Shown then t else ⟨t.second + 1, t.nano - 1000000000, inRange_next h⟩

theorem asWritten_of_shown {t : Instant} (h : t.Shown) : t.asWritten = t := dif_pos h

theorem asWritten_eq_iff {t : Instant} : t.asWritten = t ↔ t.Shown := by
  constructor
  · intro h
    by_contra hnot
    have hsecond := congrArg Instant.second h
    unfold asWritten at hsecond
    rw [dif_neg hnot] at hsecond
    dsimp only at hsecond
    omega
  · exact asWritten_of_shown

end Instant

theorem Scan.parts_text (t : Instant) : Scan.parts t.text = .ok (t.parts, []) := by
  obtain ⟨hlow, hhigh⟩ := t.year_bounds
  obtain ⟨hmonth, hmonth'⟩ := Date.month_ofDay (t.second / 86400)
  obtain ⟨hday, hday'⟩ := Date.day_ofDay (t.second / 86400)
  obtain ⟨-, -, hnano⟩ := t.inRange
  have hofDay : (t.second % 86400).toNat < 86400 := by omega
  unfold Instant.text Instant.parts
  dsimp only
  generalize Date.ofDay (t.second / 86400) = date at *
  generalize (t.second % 86400).toNat = ofDay at *
  have hleap : t.nano / 1000000000 ≤ 1 := by omega
  have hrest : t.nano % 1000000000 < 1000000000 := Nat.mod_lt _ (by omega)
  generalize t.nano / 1000000000 = leap at *
  generalize t.nano % 1000000000 = nano at *
  have hend : ∀ rest, EndBefore ('-' :: rest) := EndBefore.cons rfl
  have hend' : EndBefore ['Z'] := EndBefore.cons rfl []
  have hpoint : ∀ c ∈ ['Z'].head?, c ≠ '.' := by
    rintro c ⟨⟩
    decide
  simp only [List.append_assoc, List.cons_append]
  unfold Scan.parts
  rw [bind_of_ok (Scan.year_yearText hlow hhigh (hend _)),
    bind_of_ok (Scan.separator_cons (by decide) _),
    bind_of_ok (Scan.field_padded hmonth hmonth' (by omega)),
    bind_of_ok (Scan.separator_cons (by decide) _),
    bind_of_ok (Scan.field_padded hday hday' (by omega)),
    bind_of_ok (Scan.mark_cons (by decide) _),
    bind_of_ok (Scan.field_padded (by omega) (by omega) (by omega)),
    bind_of_ok (Scan.separator_cons (by decide) _),
    bind_of_ok (Scan.field_padded (by omega) (by omega) (by omega)),
    bind_of_ok (Scan.separator_cons (by decide) _),
    bind_of_ok (Scan.field_padded (by omega) (by omega) (by omega)),
    bind_of_ok (Scan.fraction_fractionText hrest hend' hpoint),
    bind_of_ok (show Scan.offset ['Z'] = .ok (0, []) from rfl)]
  rfl

/-- The instant that is read has the same text. -/
theorem Instant.text_asWritten (t : Instant) : t.asWritten.text = t.text := by
  by_cases hshown : t.Shown
  · rw [asWritten_of_shown hshown]
  · obtain ⟨-, -, hnano⟩ := t.inRange
    unfold asWritten
    rw [dif_neg hshown]
    unfold Shown LeapEndsMinute at hshown
    -- the second after it is one of the same minute
    have hday : (t.second + 1) / 86400 = t.second / 86400 := by omega
    have hofDay : ((t.second + 1) % 86400).toNat = (t.second % 86400).toNat + 1 := by omega
    have hhour : ((t.second % 86400).toNat + 1) / 3600 = (t.second % 86400).toNat / 3600 := by omega
    have hminute : ((t.second % 86400).toNat + 1) / 60 = (t.second % 86400).toNat / 60 := by omega
    have hsecond : ((t.second % 86400).toNat + 1) % 60 + (t.nano - 1000000000) / 1000000000 =
        (t.second % 86400).toNat % 60 + t.nano / 1000000000 := by omega
    have hrest : (t.nano - 1000000000) % 1000000000 = t.nano % 1000000000 := by omega
    unfold Instant.text
    dsimp only
    rw [hday, hofDay, hhour, hminute, hsecond, hrest]

/-- The second and the nanoseconds that the parts of the text are put together to. -/
theorem Instant.second_asWritten (t : Instant) :
    t.second / 86400 * 86400 + (((t.second % 86400).toNat / 3600 * 3600 +
        (t.second % 86400).toNat / 60 % 60 * 60 +
        min ((t.second % 86400).toNat % 60 + t.nano / 1000000000) 59 : Nat) : Int) - 0 =
      t.asWritten.second ∧
    t.nano % 1000000000 + (if (t.second % 86400).toNat % 60 + t.nano / 1000000000 = 60
      then 1000000000 else 0) = t.asWritten.nano := by
  obtain ⟨-, -, hnano⟩ := t.inRange
  unfold asWritten
  by_cases hshown : t.Shown
  · rw [dif_pos hshown]
    unfold Shown LeapEndsMinute at hshown
    constructor
    · omega
    · split <;> omega
  · rw [dif_neg hshown]
    unfold Shown LeapEndsMinute at hshown
    constructor
    · show _ = t.second + 1
      omega
    · show _ = t.nano - 1000000000
      split <;> omega

theorem Instant.shown_asWritten (t : Instant) : t.asWritten.Shown := by
  obtain ⟨-, -, hnano⟩ := t.inRange
  unfold asWritten
  split
  · assumption
  · intro hleap
    dsimp only at hleap
    omega

theorem Instant.ofParts?_parts (t : Instant) : Instant.ofParts? t.parts = .ok t.asWritten := by
  obtain ⟨hlow, hhigh⟩ := t.year_bounds
  obtain ⟨hsecond, hnano⟩ := t.second_asWritten
  have hyear : yearInRange t.parts.date.year = true := by
    unfold yearInRange
    simp only [Bool.and_eq_true, decide_eq_true_eq]
    exact ⟨hlow, hhigh⟩
  have hdate : t.parts.date.isValid = true := Date.isValid_ofDay _
  have hday : t.parts.date.toDay = t.second / 86400 := Date.toDay_ofDay _
  have hoffset : ¬ t.parts.offset.natAbs ≥ 86400 := by
    show ¬ (0 : Int).natAbs ≥ 86400
    decide
  unfold Instant.ofParts?
  rw [hyear, hdate, if_neg (by decide), if_neg hoffset, hday]
  unfold Instant.parts
  dsimp only
  rw [hsecond, hnano]
  unfold Instant.make?
  rw [dif_pos ⟨t.asWritten.inRange, t.shown_asWritten⟩]

/-- An instant that was written is read back, if its text shows all of it. -/
theorem Instant.ofText?_text (t : Instant) : Instant.ofText? t.text = .ok t.asWritten := by
  unfold Instant.ofText?
  rw [Scan.parts_text]
  exact t.ofParts?_parts

end Pinboard.Time
