import Mathlib
import Pinboard.Time.Instant

/-!
# Days and dates

The date of a day number is a date that there is, and its day number is the one it was made of. A
day counted from 0001-01-01 is split into blocks of 400 years, centuries, cycles of four years and
years; the leap days are where these are not of equal length.
-/

namespace Pinboard.Time

/-! ## Years -/

/-- What a day is split into: `b` blocks, `c` centuries, `q` cycles, `r` years and `d` days. The
last century of a block and the last year of a cycle can have a day more. -/
structure Split (n : Int) (b : Int) (c q r d : Nat) : Prop where
  /-- The parts make up the day; a block has 400 years. -/
  sum : n = 146097 * b + (36524 * c + 1461 * q + 365 * r + d : Nat)
  /-- A block has four centuries. -/
  century : c ≤ 3
  /-- A century has up to 25 cycles of four years. -/
  cycle : q ≤ 24
  /-- A cycle has four years. -/
  year : r ≤ 3
  /-- Only the last year of a cycle has a 366th day, and in the last cycle of a century only if the
  century is the last of its block. -/
  day : d < 365 ∨ d = 365 ∧ r = 3 ∧ (q = 24 → c = 3)

theorem exists_split (n : Int) : ∃ (b : Int) (c q r d : Nat), Split n b c q r d ∧
    Date.yearOfDay n = (400 * b + (100 * c + 4 * q + r : Nat) + 1, d) := by
  have hblock : n = 146097 * (n / 146097) + ((n % 146097).toNat : Int) := by omega
  have hlt : (n % 146097).toNat < 146097 := by omega
  generalize hb : n / 146097 = b at *
  generalize hi : (n % 146097).toNat = inBlock at *
  have hc : inBlock - min 3 (inBlock / 36524) * 36524 ≤ 36524 := by omega
  have hc' : min 3 (inBlock / 36524) < 3 → inBlock - min 3 (inBlock / 36524) * 36524 < 36524 := by
    omega
  have hsum : min 3 (inBlock / 36524) * 36524 ≤ inBlock := by omega
  have hlast : min 3 (inBlock / 36524) ≤ 3 := Nat.min_le_left _ _
  unfold Date.yearOfDay
  rw [hb, hi]
  dsimp only
  generalize min 3 (inBlock / 36524) = c at *
  generalize hj : inBlock - c * 36524 = inCentury at *
  have hq : inCentury = 1461 * (inCentury / 1461) + inCentury % 1461 := (Nat.div_add_mod _ _).symm
  have hq' : inCentury % 1461 < 1461 := Nat.mod_lt _ (by omega)
  generalize inCentury / 1461 = q at *
  generalize inCentury % 1461 = inCycle at *
  have hr : 365 * min 3 (inCycle / 365) ≤ inCycle := by omega
  have hr' : min 3 (inCycle / 365) ≤ 3 := Nat.min_le_left _ _
  have hd : inCycle - 365 * min 3 (inCycle / 365) < 365 ∨
      inCycle - 365 * min 3 (inCycle / 365) = 365 ∧ min 3 (inCycle / 365) = 3 := by
    omega
  generalize min 3 (inCycle / 365) = r at *
  refine ⟨b, c, q, r, inCycle - 365 * r, ⟨?_, hlast, by omega, hr', ?_⟩, rfl⟩
  · omega
  · omega

variable {n b : Int} {c q r d : Nat}

/-- The days before the year that a day falls in. -/
theorem Split.daysBeforeYear (h : Split n b c q r d) :
    daysBeforeYear (400 * b + (100 * c + 4 * q + r : Nat) + 1) + d = n := by
  obtain ⟨hsum, hc, hq, hr, -⟩ := h
  have hfour : (400 * b + (100 * c + 4 * q + r : Nat)) / 4 = 100 * b + (25 * c + q : Nat) := by
    omega
  have hhundred : (400 * b + (100 * c + 4 * q + r : Nat)) / 100 = 4 * b + (c : Nat) := by omega
  have hblock : (400 * b + (100 * c + 4 * q + r : Nat)) / 400 = b := by omega
  unfold Time.daysBeforeYear
  rw [Int.add_sub_cancel, hfour, hhundred, hblock]
  omega

/-- Only a leap year has so many days. -/
theorem Split.isLeap (h : Split n b c q r d) (hd : d = 365) :
    isLeap (400 * b + (100 * c + 4 * q + r : Nat) + 1) = true := by
  obtain ⟨-, hc, hq, hr, hday⟩ := h
  have hlast : r = 3 ∧ (q = 24 → c = 3) := by omega
  unfold Time.isLeap
  simp only [Bool.and_eq_true, Bool.or_eq_true, beq_iff_eq, bne_iff_ne]
  by_cases hcycle : q = 24
  · omega
  · omega

theorem sum_monthLengths (year : Int) :
    (monthLengths year).sum = if isLeap year = true then 366 else 365 := by
  unfold monthLengths
  cases isLeap year <;> rfl

/-- A day falls in its year. -/
theorem yearOfDay_spec (n : Int) : daysBeforeYear (Date.yearOfDay n).1 + (Date.yearOfDay n).2 = n ∧
    (Date.yearOfDay n).2 < (monthLengths (Date.yearOfDay n).1).sum := by
  obtain ⟨b, c, q, r, d, hsplit, hyear⟩ := exists_split n
  rw [hyear]
  refine ⟨hsplit.daysBeforeYear, ?_⟩
  rw [sum_monthLengths]
  dsimp only
  have hday := hsplit.day
  by_cases hd : d = 365
  · rw [if_pos (hsplit.isLeap hd)]
    omega
  · split <;> omega

/-! ## Months -/

/-- A day of the year falls in its month. -/
theorem ofDayOfYear_spec {lengths : List Nat} {rest : Nat} (h : rest < lengths.sum)
    (month : Nat) : ∃ i day, Date.ofDayOfYear lengths month rest = (month + i, day + 1) ∧
      i < lengths.length ∧ day < lengths.getD i 0 ∧ (lengths.take i).sum + day = rest := by
  induction lengths generalizing month rest with
  | nil => simp at h
  | cons length lengths ih =>
    unfold Date.ofDayOfYear
    by_cases hlt : rest < length
    · rw [if_pos hlt]
      exact ⟨0, rest, rfl, by simp, hlt, by simp⟩
    · rw [if_neg hlt]
      rw [List.sum_cons] at h
      have hrest : rest - length < lengths.sum := by omega
      obtain ⟨i, day, hday, hi, hlength, hsum⟩ := ih hrest (month + 1)
      refine ⟨i + 1, day, ?_, by simpa using hi, by simpa using hlength, ?_⟩
      · rw [hday, Nat.add_right_comm, Nat.add_assoc]
      · rw [List.take_succ_cons, List.sum_cons]
        omega

theorem monthLengths_le (year : Int) (i : Nat) : (monthLengths year).getD i 0 ≤ 31 := by
  have hall : ∀ length ∈ monthLengths year, length ≤ 31 := by
    unfold monthLengths
    cases isLeap year <;> decide
  rw [List.getD_eq_getElem?_getD]
  cases hi : (monthLengths year)[i]? with
  | none => exact Nat.zero_le _
  | some length => exact hall length (List.mem_of_getElem? hi)

/-! ## Dates -/

namespace Date

/-- The date of a day, told apart: year, months and days before it. -/
theorem ofDay_spec (n : Int) : ∃ i day,
    ofDay n = ⟨(yearOfDay (n + epochOffset)).1, i + 1, day + 1⟩ ∧
    i < 12 ∧ day < (monthLengths (yearOfDay (n + epochOffset)).1).getD i 0 ∧
    ((monthLengths (yearOfDay (n + epochOffset)).1).take i).sum + day =
      (yearOfDay (n + epochOffset)).2 := by
  obtain ⟨i, day, hday, hi, hlength, hsum⟩ :=
    ofDayOfYear_spec (yearOfDay_spec (n + epochOffset)).2 1
  refine ⟨i, day, ?_, hi, hlength, hsum⟩
  unfold ofDay
  generalize yearOfDay (n + epochOffset) = split at hday ⊢
  obtain ⟨year, dayOfYear⟩ := split
  dsimp only at hday ⊢
  rw [hday, Nat.add_comm 1 i]

/-- The date of a day is that of no other day. -/
theorem toDay_ofDay (n : Int) : (ofDay n).toDay = n := by
  obtain ⟨i, day, hdate, -, -, hsum⟩ := ofDay_spec n
  have hyear := (yearOfDay_spec (n + epochOffset)).1
  have hmonth : daysBeforeMonth (yearOfDay (n + epochOffset)).1 (i + 1) =
      ((monthLengths (yearOfDay (n + epochOffset)).1).take i).sum := rfl
  rw [hdate]
  unfold toDay
  dsimp only
  rw [hmonth]
  omega

theorem isValid_ofDay (n : Int) : (ofDay n).isValid = true := by
  obtain ⟨i, day, hdate, -, hlength, -⟩ := ofDay_spec n
  rw [hdate]
  unfold isValid
  simp only [Nat.add_sub_cancel, Bool.and_eq_true, decide_eq_true_eq]
  omega

theorem month_ofDay (n : Int) : 1 ≤ (ofDay n).month ∧ (ofDay n).month ≤ 12 := by
  obtain ⟨i, day, hdate, hi, -⟩ := ofDay_spec n
  rw [hdate]
  dsimp only
  omega

theorem day_ofDay (n : Int) : 1 ≤ (ofDay n).day ∧ (ofDay n).day ≤ 31 := by
  obtain ⟨i, day, hdate, -, hlength, -⟩ := ofDay_spec n
  have hle := monthLengths_le (yearOfDay (n + epochOffset)).1 i
  rw [hdate]
  dsimp only
  omega

/-- Instants fall in the years that they are said to have. -/
theorem year_ofDay {n : Int} (hlow : earliestSecond / 86400 ≤ n)
    (hhigh : n ≤ latestSecond / 86400) :
    -262143 ≤ (ofDay n).year ∧ (ofDay n).year ≤ 262142 := by
  obtain ⟨i, day, hdate, -⟩ := ofDay_spec n
  obtain ⟨b, c, q, r, d, ⟨hsum, hc, hq, hr, hday⟩, hyear⟩ := exists_split (n + epochOffset)
  rw [hdate, hyear]
  dsimp only
  have hlow' : -96465292 ≤ n := hlow
  have hhigh' : n ≤ 95026236 := hhigh
  unfold epochOffset at hsum
  omega

end Date

end Pinboard.Time
