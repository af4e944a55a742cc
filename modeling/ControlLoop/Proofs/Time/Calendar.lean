import ControlLoop.Time.Calendar

/-!
# Days and day numbers

The day with a number exists, and its number is that number (`Date.valid_ofDayNumber`). A day number
is taken apart into cycles of 400, 100, 4 and 1 years, so the years before a year are counted by the
same cycles (`daysBeforeYear_cycles`): whether a year is leap only depends on where it stands in
them. What is left is a day of the year, which the months share out among them (`monthDay_split`).
-/

namespace ControlLoop

-- Sums start from the zero of the core library, also where algebra is imported and offers those of its monoids.
attribute [local instance (high)] Zero.ofOfNat0

namespace Calendar

/-! ## Years -/

variable {c400 c100 c4 c1 : Int}

/-- The days before a year, by the cycles that it stands in. -/
theorem daysBeforeYear_cycles (h100 : 0 ≤ c100 ∧ c100 ≤ 3) (h4 : 0 ≤ c4 ∧ c4 ≤ 24) (h1 : 0 ≤ c1 ∧ c1 ≤ 3) :
    daysBeforeYear (400 * c400 + 100 * c100 + 4 * c4 + c1 + 1) =
      146097 * c400 + 36524 * c100 + 1461 * c4 + 365 * c1 := by
  unfold daysBeforeYear
  omega

/-- A year is leap if it ends four years, unless these end a century other than the last of its
cycle. -/
theorem isLeap_cycles (h100 : 0 ≤ c100 ∧ c100 ≤ 3) (h4 : 0 ≤ c4 ∧ c4 ≤ 24) (h1 : 0 ≤ c1 ∧ c1 ≤ 3) :
    isLeap (400 * c400 + 100 * c100 + 4 * c4 + c1 + 1) = true ↔ c1 = 3 ∧ (c4 ≠ 24 ∨ c100 = 3) := by
  simp only [isLeap, Bool.and_eq_true, Bool.or_eq_true, beq_iff_eq, bne_iff_ne]
  omega

theorem daysBeforeYear_mono {y z : Int} (h : y ≤ z) : daysBeforeYear y ≤ daysBeforeYear z := by
  unfold daysBeforeYear
  omega

/-! ## Months -/

/-- A day that the months hold is a day of one of them. -/
theorem monthDay_split {lengths : List Nat} {rest : Nat} (month : Nat) (h : rest < lengths.sum) :
    ∃ before length after, lengths = before ++ length :: after ∧ before.sum ≤ rest ∧ rest - before.sum < length ∧
      monthDay lengths month rest = (month + before.length, rest - before.sum + 1) := by
  induction lengths generalizing month rest with
  | nil => cases h
  | cons length lengths ih =>
    rw [monthDay]
    split
    · next hrest => exact ⟨[], length, lengths, rfl, Nat.zero_le _, hrest, rfl⟩
    · next hrest =>
      rw [List.sum_cons] at h
      have hless : rest - length < lengths.sum := by omega
      obtain ⟨before, next, after, rfl, hbefore, hnext, hday⟩ := ih (month + 1) hless
      refine ⟨length :: before, next, after, rfl, ?_, ?_, ?_⟩
      · rw [List.sum_cons]
        omega
      · rw [List.sum_cons]
        omega
      · rw [hday, List.sum_cons, List.length_cons, Nat.sub_sub, Nat.add_assoc, Nat.add_comm 1]

theorem sum_monthLengths (leap : Bool) : (monthLengths leap).sum = if leap then 366 else 365 := by
  cases leap <;> rfl

/-- A year is as long as its months. -/
theorem daysBeforeYear_succ (y : Int) :
    daysBeforeYear (y + 1) = daysBeforeYear y + ((monthLengths (isLeap y)).sum : Nat) := by
  rw [sum_monthLengths]
  split
  all_goals
    next hleap =>
    simp only [isLeap, Bool.and_eq_true, Bool.or_eq_true, beq_iff_eq, bne_iff_ne] at hleap
    unfold daysBeforeYear
    omega

/-- The days before a month are those of the months before it. -/
theorem daysBeforeMonth_split {leap : Bool} {before after : List Nat}
    (h : monthLengths leap = before ++ after) : daysBeforeMonth leap (1 + before.length) = before.sum := by
  rw [daysBeforeMonth, h, Nat.add_sub_cancel_left, List.take_left, List.sum_eq_foldl_nat]

end Calendar

namespace Date

open Calendar

theorem Valid.day_le {d : Date} (h : d.Valid) : d.day ≤ 31 := by
  have hmonths : ∀ leap, ∀ month < 12, (monthLengths leap).getD month 0 ≤ 31 := by decide
  obtain ⟨hlow, hhigh, -, hday⟩ := h
  exact Nat.le_trans hday (hmonths _ (d.month - 1) (by omega))

/-- A day number is so many days into a year. -/
theorem exists_dayOfYear (n : Int) :
    ∃ (year : Int) (rest : Nat), daysBeforeYear year + rest = n + epochDay ∧
      rest < (monthLengths (isLeap year)).sum ∧
      ofDayNumber n = ⟨year, (monthDay (monthLengths (isLeap year)) 1 rest).1,
        (monthDay (monthLengths (isLeap year)) 1 rest).2⟩ := by
  -- the definition tells the year and the day of the year
  refine ⟨_, _, ?_, ?_, rfl⟩
  · rw [daysBeforeYear_cycles (by omega) (by omega) (by omega)]
    omega
  · rw [sum_monthLengths]
    split
    · omega
    · next hleap =>
      rw [isLeap_cycles (by omega) (by omega) (by omega)] at hleap
      omega

/-- The day with a number exists, and has that number. -/
theorem valid_ofDayNumber (n : Int) : (ofDayNumber n).Valid ∧ (ofDayNumber n).dayNumber = n := by
  obtain ⟨year, rest, hnumber, hrest, hday⟩ := exists_dayOfYear n
  obtain ⟨before, length, after, hlengths, hbefore, hlength, hmonth⟩ := monthDay_split 1 hrest
  have htwelve : before.length + (after.length + 1) = 12 := by
    have := congrArg List.length hlengths
    simpa [monthLengths] using this.symm
  have hget : (monthLengths (isLeap year)).getD (1 + before.length - 1) 0 = length := by
    simp [hlengths]
  rw [hday, hmonth]
  constructor
  · show 1 ≤ 1 + before.length ∧ 1 + before.length ≤ 12 ∧ 1 ≤ rest - before.sum + 1 ∧ rest - before.sum + 1 ≤ _
    rw [hget]
    omega
  · show daysBeforeYear year + daysBeforeMonth (isLeap year) (1 + before.length) +
      (rest - before.sum + 1 - 1 : Nat) - epochDay = n
    rw [daysBeforeMonth_split hlengths]
    omega

/-- The years of the days between two others are between theirs. -/
theorem year_ofDayNumber {n : Int} {first last : Int} (hfirst : daysBeforeYear first ≤ n + epochDay)
    (hlast : n + epochDay < daysBeforeYear (last + 1)) :
    first ≤ (ofDayNumber n).year ∧ (ofDayNumber n).year ≤ last := by
  obtain ⟨year, rest, hnumber, hrest, hday⟩ := exists_dayOfYear n
  have hnext := daysBeforeYear_succ year
  have hyear : (ofDayNumber n).year = year := by rw [hday]
  rw [hyear]
  refine ⟨Int.not_lt.mp fun hlt => ?_, Int.not_lt.mp fun hlt => ?_⟩
  · have := daysBeforeYear_mono (show year + 1 ≤ first by omega)
    omega
  · have := daysBeforeYear_mono (show last + 1 ≤ year by omega)
    omega

end Date

end ControlLoop
