import ControlLoop.Text.Digits

/-!
# Spans of time

A `Span` is a `Duration`, a length of time in whole nanoseconds, shorter than 2^64 seconds. Sums and
products that leave this range do not exist (`ofNanos?`, `scale?`), and its short text names the
largest unit that fits: `1.5s`, `30ms`, `100µs`, `0ns`.
-/

namespace ControlLoop

/-- A length of time. -/
structure Span where
  /-- its nanoseconds -/
  nanos : Nat
  /-- it is shorter than 2^64 seconds -/
  nanos_lt : nanos < 2 ^ 64 * 10 ^ 9
  deriving DecidableEq

namespace Span

theorem ext_nanos {a b : Span} (h : a.nanos = b.nanos) : a = b := by
  cases a; cases b; cases h; rfl

instance : LE Span := ⟨fun a b => a.nanos ≤ b.nanos⟩
instance : LT Span := ⟨fun a b => a.nanos < b.nanos⟩
instance (a b : Span) : Decidable (a ≤ b) := inferInstanceAs (Decidable (a.nanos ≤ b.nanos))
instance (a b : Span) : Decidable (a < b) := inferInstanceAs (Decidable (a.nanos < b.nanos))
instance : Min Span := ⟨fun a b => if a ≤ b then a else b⟩

/-- No time at all. -/
def zero : Span := ⟨0, by decide⟩

instance : Inhabited Span := ⟨zero⟩

/-- The longest span. -/
def longest : Span := ⟨2 ^ 64 * 10 ^ 9 - 1, by decide⟩

/-- The span of `n` nanoseconds, if there is one. -/
def ofNanos? (n : Nat) : Option Span :=
  if h : n < 2 ^ 64 * 10 ^ 9 then some ⟨n, h⟩ else none

/-- The span of `n` nanoseconds, or the longest one. -/
def ofNanos (n : Nat) : Span := (ofNanos? n).getD longest

/-- The span of `ms` milliseconds, or the longest one. -/
def ofMillis (ms : Nat) : Span := ofNanos (ms * 10 ^ 6)

/-- The span of `s` seconds, or the longest one. -/
def ofSeconds (s : Nat) : Span := ofNanos (s * 10 ^ 9)

/-- The span of `s` seconds and `n` nanoseconds, where `n` may make up whole seconds. -/
def ofParts? (s n : Nat) : Option Span := ofNanos? (s * 10 ^ 9 + n)

/-- Its whole seconds. -/
def seconds (d : Span) : Nat := d.nanos / 10 ^ 9

/-- The nanoseconds beyond its whole seconds. -/
def subsecond (d : Span) : Nat := d.nanos % 10 ^ 9

/-- `k` times as long. -/
def scale? (d : Span) (k : Nat) : Option Span := ofNanos? (d.nanos * k)

theorem nanos_min (a b : Span) : (min a b).nanos = min a.nanos b.nanos := by
  show (if a ≤ b then a else b).nanos = _
  split
  · next h => exact (Nat.min_eq_left h).symm
  · next h => exact (Nat.min_eq_right (Nat.le_of_not_le h)).symm

theorem ofNanos?_nanos (d : Span) : ofNanos? d.nanos = some d := dif_pos d.nanos_lt

theorem ofNanos?_eq_some {n : Nat} {d : Span} : ofNanos? n = some d ↔ d.nanos = n := by
  constructor
  · intro h
    unfold ofNanos? at h
    split at h
    · cases h; rfl
    · cases h
  · rintro rfl
    exact ofNanos?_nanos d

theorem ofParts?_seconds_subsecond (d : Span) : ofParts? d.seconds d.subsecond = some d := by
  have : d.seconds * 10 ^ 9 + d.subsecond = d.nanos := by
    simp only [seconds, subsecond]; omega
  rw [ofParts?, this, ofNanos?_nanos]

/-- `n` of the smallest unit in a unit `10 ^ places` times as large, without zeros at the end. -/
private def inUnit (n places : Nat) (unit : String) : String :=
  let whole := Digits.plain (n / 10 ^ places)
  let rest := Digits.trimZeros (Digits.fixed places (n % 10 ^ places))
  String.ofList (if rest.isEmpty then whole else whole ++ '.' :: rest) ++ unit

/-- The short text of a span, in the largest unit that fits. -/
def text (d : Span) : String :=
  if 10 ^ 9 ≤ d.nanos then inUnit d.nanos 9 "s"
  else if 10 ^ 6 ≤ d.nanos then inUnit d.nanos 6 "ms"
  else if 10 ^ 3 ≤ d.nanos then inUnit d.nanos 3 "µs"
  else inUnit d.nanos 0 "ns"

end Span

end ControlLoop
