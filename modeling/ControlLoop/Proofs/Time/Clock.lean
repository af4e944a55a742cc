import ControlLoop.Time.Timestamp

/-!
# The manual clock is exact

What it means that an instant lies some nanoseconds after another one is a matter of counting
(`IsAfter`): seconds and fractions are counted, and of all leap seconds only the one in which the
earlier instant stands. A clock that is advanced by a span shows the instant that far ahead, if
there is one in the range, and otherwise what it showed before (`clock_is_exact`). Two things may
stand in the way of an advance, a span that is no difference between instants and a sum that is no
instant; both come to one bound on the sum (`reaches_iff`), since the range is shorter than the
longest difference. So the clock never goes back, and it has moved by the spans that had room in the
range, no more and no less.
-/

namespace ControlLoop.Timestamp

variable {t u v : Timestamp} {m n : Nat} {d : Span}

/-- Instants are in the order of their seconds, and within a second in the order of their
fractions. -/
instance : LE Timestamp := ⟨fun t u => t.second < u.second ∨ t.second = u.second ∧ t.fraction ≤ u.fraction⟩

theorem le_def : t ≤ u ↔ t.second < u.second ∨ t.second = u.second ∧ t.fraction ≤ u.fraction := Iff.rfl

/-! ## Counting time

An instant is a second and a fraction, and the fraction goes up to two seconds in a leap second.
`IsAfter` therefore counts along a line that depends on where one starts: a leap second in which one
stands takes time, and any other takes none. -/

/-- The place of `u` on the line of time through `t`, in nanoseconds. If `t` stands in a leap
second, this one is on the line, and what follows it comes a second later; no other leap second is
counted. -/
def place (t u : Timestamp) : Int :=
  u.second * 10 ^ 9 + u.fraction + if 10 ^ 9 ≤ t.fraction ∧ t.second < u.second then 10 ^ 9 else 0

/-- The instant `u` lies `n` nanoseconds after `t`. -/
structure IsAfter (u t : Timestamp) (n : Nat) : Prop where
  /-- it stands in no leap second, unless in that of `t` -/
  on_line : 10 ^ 9 ≤ u.fraction → 10 ^ 9 ≤ t.fraction ∧ u.second = t.second
  /-- its place is that much further on -/
  place_eq : place t u = place t t + n

theorem place_self (t : Timestamp) : place t t = t.second * 10 ^ 9 + t.fraction := by
  simp [place]

/-- Time is counted by the nanoseconds since the epoch, and a leap second is left as soon as it is
over. -/
theorem isAfter_iff : u.IsAfter t n ↔
    u.nanos = t.nanos + n ∧ (10 ^ 9 ≤ u.fraction ↔ 10 ^ 9 ≤ t.fraction ∧ t.fraction + n < 2 * 10 ^ 9) := by
  have hu := u.fraction_lt
  have ht := t.fraction_lt
  constructor
  · rintro ⟨hline, hplace⟩
    rw [place_self, place] at hplace
    simp only [nanos]
    split at hplace <;> constructor <;> omega
  · rintro ⟨hnanos, hleap⟩
    simp only [nanos] at hnanos
    constructor
    · intro hfraction
      omega
    · -- the leap second of `t` lies before `u`, or `u` lies in it, or there is none
      rw [place_self, place]
      split <;> omega

/-- Where no leap second is in play, the nanoseconds since the epoch are all that counts: so it is
for every clock that does not start in a leap second. -/
theorem isAfter_iff_of_lt (h : t.fraction < 10 ^ 9) :
    u.IsAfter t n ↔ u.fraction < 10 ^ 9 ∧ u.nanos = t.nanos + n := by
  rw [isAfter_iff]
  omega

/-- Two instants are the same if as many nanoseconds have passed since the epoch and both or neither
stand in a leap second. -/
theorem eq_of_nanos_eq (h : u.nanos = v.nanos) (hleap : 10 ^ 9 ≤ u.fraction ↔ 10 ^ 9 ≤ v.fraction) : u = v := by
  have hu := u.fraction_lt
  have hv := v.fraction_lt
  simp only [nanos] at h
  have hsecond : u.second = v.second := by omega
  have hfraction : u.fraction = v.fraction := by omega
  cases u
  cases v
  cases hsecond
  cases hfraction
  rfl

namespace IsAfter

theorem refl (t : Timestamp) : t.IsAfter t 0 where
  on_line h := ⟨h, rfl⟩
  place_eq := by simp

/-- Only one instant lies that far ahead. -/
theorem unique (hu : u.IsAfter t n) (hv : v.IsAfter t n) : u = v := by
  obtain ⟨hnanos, hleap⟩ := isAfter_iff.mp hu
  obtain ⟨hnanos', hleap'⟩ := isAfter_iff.mp hv
  exact eq_of_nanos_eq (hnanos.trans hnanos'.symm) (hleap.trans hleap'.symm)

/-- Time that passes in two parts is the time that passes. -/
theorem trans (hu : u.IsAfter t m) (hv : v.IsAfter u n) : v.IsAfter t (m + n) := by
  rw [isAfter_iff] at hu hv ⊢
  simp only [nanos] at hu hv ⊢
  have ht := t.fraction_lt
  have hu' := u.fraction_lt
  have hv' := v.fraction_lt
  omega

/-- What comes after is not earlier. -/
theorem le (h : u.IsAfter t n) : t ≤ u := by
  obtain ⟨hline, hplace⟩ := h
  rw [place_self, place] at hplace
  have ht := t.fraction_lt
  rw [le_def]
  split at hplace <;> omega

end IsAfter

/-! ## The range -/

/-- The first nanosecond of the range. -/
def firstNano : Int := minSecond * 10 ^ 9

/-- The last nanosecond of the range. -/
def lastNano : Int := maxSecond * 10 ^ 9 + (10 ^ 9 - 1)

theorem nanos_mem_range (t : Timestamp) : firstNano ≤ t.nanos ∧ t.nanos ≤ lastNano := by
  obtain ⟨hmin, hmax⟩ := t.in_range
  simp only [firstNano, lastNano, nanos]
  omega

/-- The range consists of the years from −262143 on and up to +262142. -/
example : firstNano = (⟨-262143, 1, 1⟩ : Date).dayNumber * (86400 * 10 ^ 9) ∧
    lastNano + 1 = (⟨262143, 1, 1⟩ : Date).dayNumber * (86400 * 10 ^ 9) := by decide

/-- No two instants of the range are further apart than differences are long. -/
theorem range_le_maxDifference : lastNano - firstNano ≤ maxDifference := by decide

/-- An instant is made of nanoseconds outside of leap seconds. -/
theorem ofNanos?_eq_some_iff {n : Int} : ofNanos? n = some u ↔ u.nanos = n ∧ u.fraction < 10 ^ 9 := by
  rw [ofNanos?, ofParts?]
  constructor
  · intro h
    split at h
    · cases h
      simp only [nanos]
      omega
    · cases h
  · rintro ⟨rfl, hfraction⟩
    have hsecond : u.nanos / 10 ^ 9 = u.second := by simp only [nanos]; omega
    have hrest : (u.nanos % 10 ^ 9).toNat = u.fraction := by simp only [nanos]; omega
    simp only [hsecond, hrest]
    exact dif_pos ⟨u.in_range, u.fraction_lt, u.minute_ends⟩

/-- Within the range there is an instant for every number of nanoseconds. -/
theorem exists_ofNanos?_eq_some {n : Int} (hmin : firstNano ≤ n) (hmax : n ≤ lastNano) : ∃ u, ofNanos? n = some u := by
  rw [firstNano] at hmin
  rw [lastNano] at hmax
  have hrest : (n % 10 ^ 9).toNat < 10 ^ 9 := by omega
  refine ⟨_, dif_pos ⟨⟨?_, ?_⟩, Nat.lt_trans hrest (by decide), fun hleap => absurd hrest (Nat.not_lt.mpr hleap)⟩⟩
  · omega
  · omega

theorem ofNanos?_eq_none {n : Int} (h : lastNano < n) : ofNanos? n = none := by
  rw [Option.eq_none_iff_forall_ne_some]
  intro u hu
  obtain ⟨rfl, -⟩ := ofNanos?_eq_some_iff.mp hu
  exact absurd u.nanos_mem_range.2 (Int.not_le.mpr h)

/-! ## One advance

An advance either stays in the leap second in which the clock stands or goes by the nanoseconds
since the epoch. The two cases are told apart by `advance_of_stays` and `advance_of_leaves`, and
nothing after them looks into `advance`. -/

theorem difference?_eq (d : Span) :
    difference? d = if d.nanos ≤ maxDifference then some (d.nanos : Int) else none := rfl

/-- A span that leads to an instant of the range is a difference. -/
theorem difference?_eq_some (h : t.nanos + d.nanos ≤ lastNano) : difference? d = some (d.nanos : Int) := by
  have hmin := t.nanos_mem_range.1
  have hrange := range_le_maxDifference
  rw [difference?_eq, if_pos (by omega)]

/-- A clock in a leap second that is advanced by less than what remains of it stays there. -/
theorem advance_of_stays (h : 10 ^ 9 ≤ t.fraction ∧ t.fraction + d.nanos < 2 * 10 ^ 9) :
    (t.advance d).second = t.second ∧ (t.advance d).fraction = t.fraction + d.nanos := by
  rw [advance, dif_pos h]
  exact ⟨rfl, rfl⟩

/-- Where no leap second is stayed in, an advance goes by the sum alone: a span that is no
difference leads out of the range anyway. -/
theorem advance_of_leaves (h : ¬(10 ^ 9 ≤ t.fraction ∧ t.fraction + d.nanos < 2 * 10 ^ 9)) :
    t.advance d = (ofNanos? (t.nanos + d.nanos)).getD t := by
  rw [advance, dif_neg h]
  by_cases hlong : t.nanos + d.nanos ≤ lastNano
  · simp only [difference?_eq_some hlong]
  · rw [ofNanos?_eq_none (Int.not_le.mp hlong), difference?_eq]
    split
    · rfl
    · next n hn =>
      rw [Option.ite_none_right_eq_some, Option.some_inj] at hn
      obtain ⟨-, rfl⟩ := hn
      rw [ofNanos?_eq_none (Int.not_le.mp hlong)]

/-- A clock that is advanced within the range shows the sum: either it stays in its leap second, or
the sum is an instant of the range. -/
theorem isAfter_advance (h : t.nanos + d.nanos ≤ lastNano) : (t.advance d).IsAfter t d.nanos := by
  by_cases hstays : 10 ^ 9 ≤ t.fraction ∧ t.fraction + d.nanos < 2 * 10 ^ 9
  · obtain ⟨hsecond, hfraction⟩ := advance_of_stays hstays
    exact ⟨fun _ => ⟨hstays.1, hsecond⟩, by simp [place, hsecond, hfraction, Int.add_assoc]⟩
  · have hmin := t.nanos_mem_range.1
    obtain ⟨u, hu⟩ := exists_ofNanos?_eq_some (n := t.nanos + d.nanos) (by omega) h
    obtain ⟨hnanos, hfraction⟩ := ofNanos?_eq_some_iff.mp hu
    rw [advance_of_leaves hstays, hu, Option.getD_some]
    exact isAfter_iff.mpr ⟨hnanos, iff_of_false (Nat.not_le.mpr hfraction) hstays⟩

/-- Half a second into a leap second a second is added: the clock shows half a second of the next
minute. -/
example : advance ⟨59, 1500000000, by decide, by decide, by decide⟩ (Span.ofSeconds 1) =
    ⟨60, 500000000, by decide, by decide, by decide⟩ := by decide

/-- There is an instant that far ahead: it is in the range. -/
def Reaches (t : Timestamp) (d : Span) : Prop := ∃ u : Timestamp, u.IsAfter t d.nanos

/-- An instant that far ahead exists exactly if the sum is not beyond the last nanosecond of the
range. -/
theorem reaches_iff : t.Reaches d ↔ t.nanos + d.nanos ≤ lastNano := by
  constructor
  · rintro ⟨u, hu⟩
    rw [← (isAfter_iff.mp hu).1]
    exact u.nanos_mem_range.2
  · intro h
    exact ⟨_, isAfter_advance h⟩

instance : Decidable (t.Reaches d) := decidable_of_iff _ reaches_iff.symm

/-- A clock that is advanced beyond the range stays where it is. -/
theorem advance_eq_self (h : ¬t.Reaches d) : t.advance d = t := by
  have hbeyond : lastNano < t.nanos + d.nanos := Int.not_le.mp (mt reaches_iff.mpr h)
  have hleaves : ¬(10 ^ 9 ≤ t.fraction ∧ t.fraction + d.nanos < 2 * 10 ^ 9) := by
    -- a leap second lies in the range as a whole
    have hmax := t.in_range.2
    simp only [lastNano, nanos] at hbeyond
    omega
  rw [advance_of_leaves hleaves, ofNanos?_eq_none hbeyond, Option.getD_none]

/-! ## Advances, one after the other -/

/-- What a clock shows after some advances. -/
def advanceAll (t : Timestamp) (ds : List Span) : Timestamp := ds.foldl advance t

/-- Of the spans by which a clock is advanced those that lead to an instant of the range. -/
def applied (t : Timestamp) : List Span → List Span
  | [] => []
  | d :: ds => if t.Reaches d then d :: (t.advance d).applied ds else (t.advance d).applied ds

/-- The length of some spans together, in nanoseconds. -/
def total : List Span → Nat
  | [] => 0
  | d :: ds => d.nanos + total ds

/-- However often a clock is advanced, it shows its start and the spans that were applied. -/
theorem isAfter_advanceAll (t : Timestamp) (ds : List Span) : (t.advanceAll ds).IsAfter t (total (t.applied ds)) := by
  induction ds generalizing t with
  | nil => exact IsAfter.refl t
  | cons d ds ih =>
    have hrest : (t.advanceAll (d :: ds)).IsAfter (t.advance d) (total ((t.advance d).applied ds)) := ih _
    rw [applied]
    split
    · next hreaches =>
      have hfirst : (t.advance d).IsAfter t d.nanos := isAfter_advance (reaches_iff.mp hreaches)
      exact hfirst.trans hrest
    · next hout =>
      rwa [advance_eq_self hout] at hrest ⊢

theorem advanceAll_append (t : Timestamp) (before later : List Span) :
    t.advanceAll (before ++ later) = (t.advanceAll before).advanceAll later := List.foldl_append

/-- What is promised of a clock that stands at `t`: each advance shows the exact sum or changes
nothing, and several advances show the sum of those that were applied. -/
structure AdvancesExactly (t : Timestamp) : Prop where
  /-- advanced by a span it shows the instant that far ahead, if there is one -/
  advance_eq : ∀ d u, u.IsAfter t d.nanos → t.advance d = u
  /-- and otherwise what it showed before -/
  advance_eq_self : ∀ d, ¬t.Reaches d → t.advance d = t
  /-- there is one exactly if the sum is not beyond the last nanosecond of the range -/
  reaches_iff : ∀ d, t.Reaches d ↔ t.nanos + d.nanos ≤ lastNano
  /-- neither of the two checks on the way fails then: the span is a difference, and the sum an
  instant (to stay in a leap second no sum is made) -/
  checks : ∀ d u, u.IsAfter t d.nanos → difference? d = some (d.nanos : Int) ∧
    (u.fraction < 10 ^ 9 → ofNanos? (t.nanos + d.nanos) = some u)
  /-- outside leap seconds the instant that far ahead is found by adding nanoseconds -/
  ordinary : t.fraction < 10 ^ 9 →
    ∀ (u : Timestamp) (n : Nat), u.IsAfter t n ↔ u.fraction < 10 ^ 9 ∧ u.nanos = t.nanos + n
  /-- however it is advanced, it has moved by the spans that led to instants -/
  advanceAll_isAfter : ∀ ds, (t.advanceAll ds).IsAfter t (total (t.applied ds))
  /-- and it never goes back -/
  le_advanceAll : ∀ before later, t.advanceAll before ≤ t.advanceAll (before ++ later)

/-- **A manual clock is exact**: wherever it stands, leap seconds and the ends of the range
included, an advance shows the exact sum or changes nothing. -/
theorem clock_is_exact (t : Timestamp) : t.AdvancesExactly where
  advance_eq d u hu := (isAfter_advance (Timestamp.reaches_iff.mp ⟨u, hu⟩)).unique hu
  advance_eq_self d hout := Timestamp.advance_eq_self hout
  reaches_iff _ := Timestamp.reaches_iff
  checks d u hu := by
    have hroom : t.nanos + d.nanos ≤ lastNano := Timestamp.reaches_iff.mp ⟨u, hu⟩
    refine ⟨difference?_eq_some hroom, fun hfraction => ?_⟩
    exact ofNanos?_eq_some_iff.mpr ⟨(isAfter_iff.mp hu).1, hfraction⟩
  ordinary h _ _ := isAfter_iff_of_lt h
  advanceAll_isAfter := t.isAfter_advanceAll
  le_advanceAll before later := by
    rw [advanceAll_append]
    exact (isAfter_advanceAll _ later).le

end ControlLoop.Timestamp
