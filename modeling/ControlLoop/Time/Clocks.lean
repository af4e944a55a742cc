import ControlLoop.Time.Timestamp

/-!
# Moments

The loop measures time on two clocks. Waits and durations are measured in moments (`Instant`), which
only count how much time has passed; records are stamped by a wall clock (`Clock`), which may be set
at will.
-/

namespace ControlLoop

/-- The nanoseconds since the time of the loop began. -/
abbrev Moment := Nat

/-- What the two clocks show. -/
structure Clocks where
  /-- how much time has passed -/
  now : Moment
  /-- what records are stamped with -/
  wall : Timestamp

end ControlLoop
