import ControlLoop.Time.Calendar
import ControlLoop.Time.Span

/-!
# Instants and the manual clock

A `Timestamp` is a `DateTime`, an instant of coordinated universal time between the years −262143
and +262142, to the nanosecond. A leap second is the last second of a minute with a fraction of one
second or more, so a record that names the sixtieth second keeps it. A `ManualClock` is a timestamp
that moves only when told to: `advance` moves it by a span where the result is an instant of the
range, and leaves it alone otherwise. A clock moves on within a leap second, but out of it as if it
stood in the second before.
-/

namespace ControlLoop

namespace Timestamp

/-- The first second of the year −262143, counted from 1970. -/
def minSecond : Int := -8334601228800

/-- The last second of the year +262142, counted from 1970. -/
def maxSecond : Int := 8210266876799

end Timestamp

/-- An instant of coordinated universal time. -/
structure Timestamp where
  /-- whole seconds since 1970-01-01T00:00:00Z, leap seconds not counted -/
  second : Int
  /-- nanoseconds since that second began; from 10^9 on it is a leap second -/
  fraction : Nat
  /-- it is an instant of the range -/
  in_range : Timestamp.minSecond ≤ second ∧ second ≤ Timestamp.maxSecond
  /-- no second is longer than a leap second -/
  fraction_lt : fraction < 2 * 10 ^ 9
  /-- only the last second of a minute may be followed by a leap second -/
  minute_ends : 10 ^ 9 ≤ fraction → second % 60 = 59
  deriving DecidableEq

namespace Timestamp

/-- 1970-01-01T00:00:00Z. -/
def epoch : Timestamp := ⟨0, 0, by decide, by decide, by decide⟩

instance : Inhabited Timestamp := ⟨epoch⟩

/-- The instant `fraction` nanoseconds after a second, if it is one. -/
def ofParts? (second : Int) (fraction : Nat) : Option Timestamp :=
  if h : (minSecond ≤ second ∧ second ≤ maxSecond) ∧ fraction < 2 * 10 ^ 9 ∧
      (10 ^ 9 ≤ fraction → second % 60 = 59) then
    some ⟨second, fraction, h.1, h.2.1, h.2.2⟩
  else none

/-- The nanoseconds since the epoch; those of a leap second are those of the second before it. -/
def nanos (t : Timestamp) : Int := t.second * 10 ^ 9 + (t.fraction % 10 ^ 9 : Nat)

/-- The instant `n` nanoseconds after the epoch, if it is in the range. -/
def ofNanos? (n : Int) : Option Timestamp := ofParts? (n / 10 ^ 9) (n % 10 ^ 9).toNat

/-- The instant `ms` milliseconds after the epoch; the epoch itself where there is none. -/
def ofMillis (ms : Int) : Timestamp := (ofNanos? (ms * 10 ^ 6)).getD epoch

/-- The milliseconds since the epoch, rounded down. -/
def millis (t : Timestamp) : Int := t.second * 1000 + t.fraction / 10 ^ 6

/-- The longest difference between instants that arithmetic on them works with: 2^63 − 1
milliseconds. -/
def maxDifference : Nat := (2 ^ 63 - 1) * 10 ^ 6

/-- A span as a difference between instants. -/
def difference? (d : Span) : Option Int := if d.nanos ≤ maxDifference then some d.nanos else none

/-- Moves a clock forward by `d`, or not at all where no instant of the range is that far ahead. -/
def advance (t : Timestamp) (d : Span) : Timestamp :=
  -- the same leap second
  if h : 10 ^ 9 ≤ t.fraction ∧ t.fraction + d.nanos < 2 * 10 ^ 9 then
    { t with fraction := t.fraction + d.nanos, fraction_lt := h.2, minute_ends := fun _ => t.minute_ends h.1 }
  else
    match difference? d with
    | none => t
    | some n => (ofNanos? (t.nanos + n)).getD t

end Timestamp

end ControlLoop
