import Pinboard.Time.Calendar

/-!
# Instants

A moment in universal time to the nanosecond. Nanoseconds of a thousand million and more stand for
a leap second. An instant that is made of seconds and nanoseconds has one only after the last second
of a minute (`Instant.make?`), but the nanoseconds of an instant can be put anew after any second.
The store keeps instants as whole milliseconds; `Instant.millis` rounds down to them and
`Instant.ofMillis?` reads them back.
-/

namespace Pinboard.Time

/-- The first second of the year -262143. -/
def earliestSecond : Int := -8334601228800

/-- The last second of the year 262142. -/
def latestSecond : Int := 8210266876799

/-- The seconds and nanoseconds that an instant can have: within the years -262143 to 262142, with
at most one leap second after any second. -/
def InRange (second : Int) (nano : Nat) : Prop :=
  earliestSecond ≤ second ∧ second ≤ latestSecond ∧ nano < 2000000000

instance (second : Int) (nano : Nat) : Decidable (InRange second nano) := by
  unfold InRange
  infer_instance

/-- A moment in universal time. -/
structure Instant where
  /-- Whole seconds since 1970-01-01T00:00:00Z, leap seconds not counted. -/
  second : Int
  /-- Nanoseconds past that second; from `10 ^ 9` on, past the leap second that follows it. -/
  nano : Nat
  /-- The moment lies in the range of years that can be written. -/
  inRange : InRange second nano
  deriving DecidableEq

namespace Instant

/-- Nanoseconds make a leap second only after the last second of a minute. -/
def LeapEndsMinute (second : Int) (nano : Nat) : Prop := 1000000000 ≤ nano → second % 60 = 59

instance (second : Int) (nano : Nat) : Decidable (LeapEndsMinute second nano) :=
  inferInstanceAs (Decidable (_ → _))

/-- The instant with the given seconds and nanoseconds, if one can be made of them. -/
def make? (second : Int) (nano : Nat) : Option Instant :=
  if h : InRange second nano ∧ LeapEndsMinute second nano then some ⟨second, nano, h.1⟩ else none

/-- Milliseconds since 1970-01-01T00:00:00Z, rounded down. Within a leap second they run on into
the next second. -/
def millis (t : Instant) : Int := t.second * 1000 + (t.nano / 1000000 : Nat)

/-- The instant a number of milliseconds after 1970-01-01T00:00:00Z, if it is in range. -/
def ofMillis? (ms : Int) : Option Instant := make? (ms / 1000) ((ms % 1000).toNat * 1000000)

/-- Earlier than: by seconds, then by nanoseconds. -/
def Before (s t : Instant) : Prop := s.second < t.second ∨ (s.second = t.second ∧ s.nano < t.nano)

instance (s t : Instant) : Decidable (Before s t) := by
  unfold Before
  infer_instance

end Instant

end Pinboard.Time
