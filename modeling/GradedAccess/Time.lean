/-!
# Durations and instants

Both are natural numbers of microseconds.  A duration that is kept has its whole seconds in 64 bits
(`Duration.greatest`), and doubling one stops there instead of overflowing.  Where a clock has an
end, the place that reads the clock says so.

The unit is coarser than that of a system clock, which counts nanoseconds.  Lengths below a
microsecond are not told apart here, and `Duration.greatest` is 999 nanoseconds short of the longest
duration there is.  Settings name whole milliseconds and whole seconds, which are exact in both
units.
-/

namespace GradedAccess

/-- A span of time in microseconds. -/
abbrev Duration := Nat

/-- A point of a clock: the time that has passed since the clock started. -/
abbrev Instant := Nat

namespace Duration

/-- A number of milliseconds. -/
def ofMillis (n : Nat) : Duration := n * 1000

/-- A number of seconds. -/
def ofSeconds (n : Nat) : Duration := n * 1000000

/-- The longest duration in whole microseconds: one more is a second too much for 64 bits. -/
def greatest : Duration := UInt64.size * 1000000 - 1

/-- Twice a duration, or the longest one if that is shorter. -/
def doubled (d : Duration) : Duration := min (2 * d) greatest

/-- The whole milliseconds of a duration. -/
def millis (d : Duration) : Nat := d / 1000

@[simp] theorem millis_ofMillis (n : Nat) : millis (ofMillis n) = n := by
  simp [millis, ofMillis]

end Duration

end GradedAccess
