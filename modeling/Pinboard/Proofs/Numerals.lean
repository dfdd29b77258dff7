import Pinboard.Json.Value
import Pinboard.Proofs.Skipping

/-!
# Reading back written numbers

A whole number is written in digits without a needless zero, and is read back from them if its
reader has room for it.
-/

namespace Pinboard.Json

open Digits

namespace Reader

variable {rest : List Char} {n : Nat}

theorem le_ofDigitChars (ds : List Char) (k : Nat) : k ≤ Nat.ofDigitChars 10 ds k := by
  induction ds generalizing k with
  | nil => exact Nat.le_refl k
  | cons d ds ih =>
    rw [Nat.ofDigitChars_cons]
    have hle := ih (10 * k + (d.toNat - '0'.toNat))
    omega

/-- Digits are all kept if their number is not too large. -/
theorem absorb_digits {ds : List Char} {k : Nat}
    (h : Nat.ofDigitChars 10 ds k ≤ greatestSignificand) :
    absorb k ds = (Nat.ofDigitChars 10 ds k, 0) := by
  induction ds generalizing k with
  | nil => rfl
  | cons d ds ih =>
    rw [Nat.ofDigitChars_cons] at h ⊢
    have hwider : k * 10 + (d.toNat - 48) = 10 * k + (d.toNat - '0'.toNat) := by
      rw [Nat.mul_comm]
      rfl
    have hle := le_ofDigitChars ds (10 * k + (d.toNat - '0'.toNat))
    unfold absorb
    dsimp only
    rw [hwider, if_pos (by omega)]
    exact ih h

theorem yields_wholeDigits {whole more : List Char} (hwhole : WholeText whole)
    (hmore : EndBefore more) : Yields wholeDigits (whole ++ more) whole more := by
  obtain ⟨hdigits, hzero⟩ := hwhole
  obtain ⟨d, ds, rfl, hd⟩ := exists_digit hdigits
  unfold wholeDigits
  refine (yields_peek _).bind ?_
  rw [List.cons_append, List.head?_cons]
  split
  · rename_i h
    cases h
  · rename_i h
    cases h
    obtain rfl : ds = [] := by simpa using hzero rfl
    refine (yields_skip _ _).bind ((yields_peek _).bind ?_)
    rw [List.nil_append]
    cases more with
    | nil => exact .pure _ _
    | cons c more =>
      have hc : c.isDigit = false := hmore c rfl
      simp only [List.head?_cons, hc, Bool.false_eq_true, if_false]
      exact .pure _ _
  · rename_i h
    cases h
    rw [if_pos hd]
    exact yields_digits hdigits hmore

theorem wholeText_toDigits (n : Nat) : WholeText (Nat.toDigits 10 n) := by
  refine ⟨⟨Nat.toDigits_ne_nil, fun c hc => isDigit_toDigits hc⟩, fun hzero => ?_⟩
  obtain ⟨ds, hds⟩ := List.head?_eq_some_iff.mp hzero
  rw [head_toDigits hds]
  rfl

/-- After digits that no point and no exponent follows, the number is a whole one. -/
theorem yields_number {negative : Bool} {x : Number} (hn : n ≤ greatestSignificand)
    (hrest : Delimited rest)
    (h : Yields (if !negative then pure (.integer n)
      else if n = 0 ∨ greatestMagnitude < n then double true n 0
      else pure (.integer (-n)) : Reader Number) rest x rest) :
    Yields (number negative) (Nat.toDigits 10 n ++ rest) x rest := by
  have hvalue : Nat.ofDigitChars 10 (Nat.toDigits 10 n) 0 = n := Nat.ofDigitChars_ten_toDigits
  have habsorb : absorb 0 (Nat.toDigits 10 n) = (n, 0) := by
    rw [absorb_digits (by omega), hvalue]
  unfold number
  refine (yields_wholeDigits (wholeText_toDigits n) hrest.endBefore).bind ?_
  rw [habsorb]
  dsimp only
  refine (yields_peek _).bind ?_
  split
  · rename_i hpoint
    exact absurd rfl (hrest '.' hpoint).2.1
  · rename_i hlower
    exact absurd rfl (hrest 'e' hlower).2.2.1
  · rename_i hupper
    exact absurd rfl (hrest 'E' hupper).2.2.2
  · exact h

/-- A whole number of 64 bits is read back. -/
theorem yields_signedNumber {n : Int} (hleast : -9223372036854775808 ≤ n)
    (hgreatest : n ≤ 18446744073709551615) (hrest : Delimited rest) :
    Yields signedNumber? (integerChars n ++ rest) (some (.integer n)) rest := by
  have hsignificand : n.natAbs ≤ greatestSignificand := by
    unfold greatestSignificand
    omega
  unfold signedNumber? integerChars
  refine (yields_peek _).bind ?_
  by_cases hneg : n < 0
  · have hvalue : -(n.natAbs : Int) = n := by omega
    have hsmall : ¬ (n.natAbs = 0 ∨ greatestMagnitude < n.natAbs) := by
      unfold greatestMagnitude
      omega
    rw [if_pos hneg, List.cons_append, List.head?_cons]
    refine (yields_skip _ _).bind (.map (yields_number hsignificand hrest ?_) _)
    rw [if_neg (by decide), if_neg hsmall, hvalue]
    exact .pure _ _
  · have hvalue : (n.natAbs : Int) = n := by omega
    have hnumber : Yields (number false) (Nat.toDigits 10 n.natAbs ++ rest) (.integer n) rest := by
      refine yields_number hsignificand hrest ?_
      rw [if_pos (by decide), hvalue]
      exact .pure _ _
    obtain ⟨d, ds, hds, hdigit⟩ := exists_digit (wholeText_toDigits n.natAbs).1
    rw [if_neg hneg]
    rw [hds] at hnumber ⊢
    rw [List.cons_append, List.head?_cons]
    split
    · rename_i hminus
      cases hminus
      cases hdigit
    · rename_i hd
      cases hd
      rw [if_pos hdigit]
      exact hnumber.map _
    · rename_i hnone
      cases hnone

theorem head_integerChars (n : Int) : ∃ c cs, integerChars n = c :: cs ∧ isSpace c = false := by
  unfold integerChars
  split
  · exact ⟨'-', _, rfl, rfl⟩
  · obtain ⟨d, ds, hds, hdigit⟩ := exists_digit (wholeText_toDigits n.natAbs).1
    exact ⟨d, ds, hds, isSpace_digit hdigit⟩

theorem takes_integer {low high n : Int} {expected : String} (hlow : low ≤ n) (hhigh : n ≤ high)
    (hleast : -9223372036854775808 ≤ n) (hgreatest : n ≤ 18446744073709551615) :
    Takes (integer low high expected) (integerChars n) n := by
  refine .of_yields fun rest hrest => ?_
  have hnumber := yields_signedNumber hleast hgreatest hrest
  obtain ⟨c, cs, hchars, hspace⟩ := head_integerChars n
  rw [hchars, List.cons_append] at hnumber ⊢
  refine Yields.located ((yields_token hspace _).bind (hnumber.bind ?_))
  dsimp only
  rw [if_pos ⟨hlow, hhigh⟩]
  exact .pure _ _

theorem takes_uint32 (n : UInt32) : Takes uint32 (Value.integer n.toNat).chars n := by
  have hlt := n.toNat_lt
  have hread : Takes (integer 0 4294967295 "u32") (integerChars n.toNat) (n.toNat : Int) :=
    takes_integer (by omega) (by omega) (by omega) (by omega)
  have hvalue : UInt32.ofNat (n.toNat : Int).toNat = n := by simp
  have hmap := hread.map fun m => UInt32.ofNat m.toNat
  rw [hvalue] at hmap
  exact hmap

theorem takes_uint64 (n : UInt64) : Takes uint64 (Value.integer n.toNat).chars n := by
  have hlt := n.toNat_lt
  have hread : Takes (integer 0 18446744073709551615 "u64") (integerChars n.toNat)
      (n.toNat : Int) := takes_integer (by omega) (by omega) (by omega) (by omega)
  have hvalue : UInt64.ofNat (n.toNat : Int).toNat = n := by simp
  have hmap := hread.map fun m => UInt64.ofNat m.toNat
  rw [hvalue] at hmap
  exact hmap

theorem takes_int32 (n : Int32) : Takes int32 (Value.integer n.toInt).chars n := by
  have hlow := n.le_toInt
  have hhigh := n.toInt_lt
  have hread : Takes (integer (-2147483648) 2147483647 "i32") (integerChars n.toInt) n.toInt :=
    takes_integer (by omega) (by omega) (by omega) (by omega)
  have hmap := hread.map Int32.ofInt
  rw [Int32.ofInt_toInt] at hmap
  exact hmap

end Reader

end Pinboard.Json
