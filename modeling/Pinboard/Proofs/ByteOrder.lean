import Mathlib.Data.String.Basic
import Mathlib.Tactic.SplitIfs
import Pinboard.Store.Cell

/-!
# Texts in the order of their bytes

A column of texts is sorted by their bytes in UTF-8. The encoding keeps the order of code points:
the encodings of two characters differ at some byte, and at the first such byte the larger character
has the larger byte. So texts compared character by character stand in the order of their bytes.
-/

namespace Pinboard.Store.Cell

/-! ## Comparing bytes -/

section Bytes

variable {a b : UInt8} {as bs : List UInt8}

theorem compareBytes_cons : compareBytes (a :: as) (b :: bs) = .lt ↔
    a.toNat < b.toNat ∨ a.toNat = b.toNat ∧ compareBytes as bs = .lt := by
  rw [compareBytes, Ordering.then_eq_lt, Std.compare_eq_lt, Std.compare_eq_iff_eq,
    UInt8.lt_iff_toNat_lt, UInt8.toNat_inj]

theorem compareBytes_swap (as bs : List UInt8) :
    (compareBytes as bs).swap = compareBytes bs as := by
  induction as generalizing bs with
  | nil => cases bs <;> rfl
  | cons a as ih =>
    cases bs with
    | nil => rfl
    | cons b bs =>
      rw [compareBytes, compareBytes, Ordering.swap_then, ih, ← Std.OrientedOrd.eq_swap]

theorem compareBytes_asymm (h : compareBytes as bs = .lt) : compareBytes bs as ≠ .lt := by
  intro h'
  rw [← compareBytes_swap, h'] at h
  cases h

theorem compareBytes_append (p as bs : List UInt8) :
    compareBytes (p ++ as) (p ++ bs) = compareBytes as bs := by
  induction p with
  | nil => rfl
  | cons a p ih =>
    rw [List.cons_append, List.cons_append, compareBytes, ih, Std.ReflOrd.compare_self,
      Ordering.eq_then]

end Bytes

/-! ## Characters -/

/-- Of two numbers the larger one has the larger digit to the base 64 where they first differ. -/
theorem digit_lt {v w : Nat} (h : v < w) :
    v / 64 < w / 64 ∨ v / 64 = w / 64 ∧ v % 64 < w % 64 := by
  omega

/-- A larger character has a larger encoding, whatever follows the two. -/
theorem compareBytes_encode {c d : Char} (h : c < d) (as bs : List UInt8) :
    compareBytes (String.utf8EncodeChar c ++ as) (String.utf8EncodeChar d ++ bs) = .lt := by
  have hlt : c.val.toNat < d.val.toNat := h
  have hmax : d.val.toNat < 1114112 := by
    rcases d.valid with hd | hd <;> omega
  unfold String.utf8EncodeChar
  generalize c.val.toNat = v at hlt
  generalize d.val.toNat = w at hlt hmax
  -- the digits of the longest encoding, and with them those of the shorter ones
  have hlast := digit_lt hlt
  have hthird : v / 64 < w / 64 → v / 4096 < w / 4096 ∨
      v / 4096 = w / 4096 ∧ v / 64 % 64 < w / 64 % 64 := by
    intro h
    have hdigit := digit_lt h
    rwa [Nat.div_div_eq_div_mul, Nat.div_div_eq_div_mul] at hdigit
  have hsecond : v / 4096 < w / 4096 → v / 262144 < w / 262144 ∨
      v / 262144 = w / 262144 ∧ v / 4096 % 64 < w / 4096 % 64 := by
    intro h
    have hdigit := digit_lt h
    rwa [Nat.div_div_eq_div_mul, Nat.div_div_eq_div_mul] at hdigit
  dsimp only
  split_ifs <;>
    simp (disch := omega) only [List.cons_append, List.nil_append, compareBytes_cons,
      UInt8.toNat_ofNat', Nat.mod_eq_of_lt] <;> omega

/-! ## Texts -/

/-- The bytes of a text. -/
def bytesOf (s : String) : List UInt8 := s.toUTF8.data.toList

theorem bytesOf_eq (s : String) : bytesOf s = s.toList.flatMap String.utf8EncodeChar := by
  conv_lhs => rw [← String.ofList_toList (s := s)]
  unfold bytesOf
  rw [String.toUTF8_eq_toByteArray, String.toByteArray_ofList, List.utf8Encode,
    List.data_toByteArray]

theorem compareBytes_encoded {cs ds : List Char} (h : cs < ds) :
    compareBytes (cs.flatMap String.utf8EncodeChar) (ds.flatMap String.utf8EncodeChar) = .lt := by
  induction h with
  | nil =>
    -- Behind a text that ends here, the other goes on with at least one byte.
    rename_i d ds
    have hne : String.utf8EncodeChar d ≠ [] := by
      unfold String.utf8EncodeChar
      dsimp only
      split_ifs <;> simp
    rw [List.flatMap_cons]
    cases hd : String.utf8EncodeChar d with
    | nil => exact absurd hd hne
    | cons b bs => rfl
  | rel hlt => exact compareBytes_encode hlt _ _
  | cons _ ih => rw [List.flatMap_cons, List.flatMap_cons, compareBytes_append, ih]

theorem compareBytes_bytesOf {s t : String} (h : s < t) :
    compareBytes (bytesOf s) (bytesOf t) = .lt := by
  rw [bytesOf_eq, bytesOf_eq]
  exact compareBytes_encoded (String.lt_iff_toList_lt.mp h)

end Pinboard.Store.Cell
