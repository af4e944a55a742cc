/-!
# The calendar

The days of a `DateTime`: the proleptic Gregorian calendar, and the number of a day counted from
1970-01-01. A day number splits into cycles of 400, 100, 4 and 1 years; the last century of a
400-year cycle and the last year of a 4-year cycle are one day longer than the others, which is why
their counts are capped at 3.
-/

namespace ControlLoop

/-- A day of a year of a month, not necessarily an existing one. -/
structure Date where
  /-- the year; year 0 precedes year 1 -/
  year : Int
  /-- 1 to 12 -/
  month : Nat
  /-- counted from 1 -/
  day : Nat
  deriving DecidableEq

namespace Calendar

/-- Has the year a 29th of February? -/
def isLeap (year : Int) : Bool := year % 4 == 0 && (year % 100 != 0 || year % 400 == 0)

/-- The lengths of the months. -/
def monthLengths (leap : Bool) : List Nat :=
  [31, if leap then 29 else 28, 31, 30, 31, 30, 31, 31, 30, 31, 30, 31]

/-- The days before the first of January of a year, counted from the year 1. -/
def daysBeforeYear (year : Int) : Int :=
  365 * (year - 1) + (year - 1) / 4 - (year - 1) / 100 + (year - 1) / 400

/-- The days of the year before the first of a month. -/
def daysBeforeMonth (leap : Bool) (month : Nat) : Nat := ((monthLengths leap).take (month - 1)).foldl (· + ·) 0

/-- The number of 1970-01-01, counted from 0001-01-01. -/
def epochDay : Int := 719162

/-- Month and day from the number of days since the first of January. -/
def monthDay : (lengths : List Nat) → (month rest : Nat) → Nat × Nat
  | [], month, rest => (month, rest + 1)
  | length :: lengths, month, rest =>
    if rest < length then (month, rest + 1) else monthDay lengths (month + 1) (rest - length)

end Calendar

namespace Date

open Calendar

/-- Does the day exist? -/
def Valid (d : Date) : Prop :=
  1 ≤ d.month ∧ d.month ≤ 12 ∧ 1 ≤ d.day ∧ d.day ≤ (monthLengths (isLeap d.year)).getD (d.month - 1) 0

instance (d : Date) : Decidable d.Valid := by unfold Valid; infer_instance

/-- The days from 1970-01-01. -/
def dayNumber (d : Date) : Int :=
  daysBeforeYear d.year + daysBeforeMonth (isLeap d.year) d.month + (d.day - 1 : Nat) - epochDay

/-- The day with a given number. -/
def ofDayNumber (n : Int) : Date :=
  -- counted from 0001-01-01, so that the long years end their cycles
  let n := n + epochDay
  let c400 := n / 146097
  let r400 := n % 146097
  let c100 := min 3 (r400 / 36524)
  let r100 := r400 - 36524 * c100
  let c4 := r100 / 1461
  let r4 := r100 % 1461
  let c1 := min 3 (r4 / 365)
  let year := 400 * c400 + 100 * c100 + 4 * c4 + c1 + 1
  let (month, day) := monthDay (monthLengths (isLeap year)) 1 (r4 - 365 * c1).toNat
  ⟨year, month, day⟩

end Date

end ControlLoop
