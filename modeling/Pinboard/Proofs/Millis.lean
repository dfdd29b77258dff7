import Pinboard.Time.Instant

/-!
# Whole milliseconds

Whole milliseconds know no leap seconds. A moment comes back from them rounded down, and the order
of two moments is kept, where no leap second is involved. A moment within a leap second comes back
as far into the second after it, or not at all if there is no such second
(`Instant.ofMillis?_millis`); it overtakes those moments of that second that are less far into it
(`Instant.millis_lt_iff`), and no others.
-/

namespace Pinboard.Time.Instant

/-- The moment lies in a leap second. -/
def InLeap (t : Instant) : Prop := 1000000000 ≤ t.nano

instance (t : Instant) : Decidable t.InLeap := inferInstanceAs (Decidable (_ ≤ _))

/-- The moment rounded down to whole milliseconds. -/
def wholeMillis (t : Instant) : Instant :=
  ⟨t.second, t.nano / 1000000 * 1000000, by
    obtain ⟨hearliest, hlatest, hnano⟩ := t.inRange
    exact ⟨hearliest, hlatest, by omega⟩⟩

/-- What is as far into the second after a leap second as the moment is into the leap second,
rounded down to whole milliseconds. The very last second has none after it. -/
def pastLeap? (t : Instant) : Option Instant :=
  make? (t.second + 1) (t.nano / 1000000 * 1000000 - 1000000000)

/-- A moment of a leap second is further into it than another moment is into the second after. -/
def Overtakes (s t : Instant) : Prop :=
  s.InLeap ∧ t.second = s.second + 1 ∧ t.nano / 1000000 + 1000 < s.nano / 1000000

instance (s t : Instant) : Decidable (s.Overtakes t) :=
  inferInstanceAs (Decidable (_ ∧ _ ∧ _))

variable {s t : Instant}

theorem ofMillis?_millis (t : Instant) :
    ofMillis? t.millis = if t.InLeap then t.pastLeap? else some t.wholeMillis := by
  obtain ⟨-, -, hnano⟩ := t.inRange
  unfold ofMillis? millis
  by_cases hleap : t.InLeap
  · rw [if_pos hleap]
    unfold InLeap at hleap
    have hsecond : (t.second * 1000 + (t.nano / 1000000 : Nat)) / 1000 = t.second + 1 := by omega
    have hrest : ((t.second * 1000 + (t.nano / 1000000 : Nat)) % 1000).toNat * 1000000 =
        t.nano / 1000000 * 1000000 - 1000000000 := by omega
    rw [pastLeap?, hsecond, hrest]
  · rw [if_neg hleap]
    unfold InLeap at hleap
    have hsecond : (t.second * 1000 + (t.nano / 1000000 : Nat)) / 1000 = t.second := by omega
    have hrest : ((t.second * 1000 + (t.nano / 1000000 : Nat)) % 1000).toNat =
        t.nano / 1000000 := by omega
    rw [hsecond, hrest]
    refine dif_pos ⟨t.wholeMillis.inRange, fun h => ?_⟩
    omega

/-- Only the leap second that is the last of all has no second after it. -/
theorem pastLeap?_eq_none_iff (h : t.InLeap) : t.pastLeap? = none ↔ t.second = latestSecond := by
  obtain ⟨hearliest, hlatest, hnano⟩ := t.inRange
  unfold InLeap at h
  unfold pastLeap? make?
  by_cases hlast : t.second = latestSecond
  · rw [dif_neg fun hrange => ?_]
    · exact ⟨fun _ => hlast, fun _ => rfl⟩
    · have hnext := hrange.1.2.1
      omega
  · have hnext : InRange (t.second + 1) (t.nano / 1000000 * 1000000 - 1000000000) :=
      ⟨by omega, by omega, by omega⟩
    rw [dif_pos ⟨hnext, fun hnano' => by omega⟩]
    exact ⟨(nomatch ·), fun heq => absurd heq hlast⟩

/-- Of two moments, the earlier one is kept as the later one exactly if it overtakes it. -/
theorem millis_lt_iff (h : s.Before t) : t.millis < s.millis ↔ s.Overtakes t := by
  obtain ⟨-, -, hnano⟩ := s.inRange
  unfold Before at h
  unfold Overtakes InLeap millis
  omega

end Pinboard.Time.Instant
