/-!
# Instants

* `Instant` : a point in time, to the nanosecond; `Instant.ofMillis`, `Instant.millis`;
* `Instant.since` : the time between two instants.
-/

set_option autoImplicit false

namespace Statechart

/-- A point in time: whole seconds since the start of 1970, and nanoseconds. Within a leap second the
nanoseconds run on past the end of the second before it. -/
structure Instant where
  seconds : Int
  nanos : Nat
deriving DecidableEq, Repr

namespace Instant

def nanosPerSecond : Nat := 1000000000

def nanosPerMilli : Nat := 1000000

def secondsPerDay : Int := 86400

def ofMillis (ms : Int) : Instant :=
  ⟨ms / 1000, (ms % 1000).toNat * nanosPerMilli⟩

/-- Whole milliseconds since the start of 1970. -/
def millis (t : Instant) : Int := t.seconds * 1000 + (t.nanos / nanosPerMilli : Nat)

theorem millis_ofMillis (ms : Int) : (ofMillis ms).millis = ms := by
  simp only [ofMillis, millis, nanosPerMilli]
  omega

/-- The second of the day. -/
def secondOfDay (t : Instant) : Int := t.seconds % secondsPerDay

def inLeapSecond (t : Instant) : Bool := nanosPerSecond ≤ t.nanos

/-- A leap second that lies between two times of day counts as a second of its own. -/
def leapCorrection (t u : Instant) : Int :=
  if u.secondOfDay < t.secondOfDay then (if u.inLeapSecond then 1 else 0)
  else if t.secondOfDay < u.secondOfDay then (if t.inLeapSecond then -1 else 0)
  else 0

/-- The nanoseconds from `u` to `t`. -/
def since (t u : Instant) : Int :=
  (t.seconds - u.seconds + leapCorrection t u) * nanosPerSecond + t.nanos - u.nanos

end Instant

end Statechart
