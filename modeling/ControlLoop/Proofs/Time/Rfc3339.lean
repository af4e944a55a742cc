import ControlLoop.Proofs.Text.Digits
import ControlLoop.Proofs.Time.Calendar
import ControlLoop.Time.Rfc3339

/-!
# Written instants are read back

Each reader takes exactly what was written for it off the front of a text, whatever follows: a
number of fixed width, a year with or without a sign, a fraction of any length. So the text of an
instant is read as its date and time of day, and these are the instant again (`ofChars?_chars`),
leap seconds and the ends of the range included.
-/

namespace ControlLoop.Timestamp

open Digits

variable {c : Char} {cs : List Char} {width n : Nat}

/-! ## Numbers and marks -/

theorem trimStart_cons (h : Text.isBlank c = false) : Text.trimStart (c :: cs) = c :: cs :=
  List.dropWhile_cons_of_neg (by simp [h])

theorem readMark_cons (h : Text.isBlank c = false) : readMark c (c :: cs) = some cs := by
  rw [readMark, trimStart_cons h]
  exact if_pos rfl

theorem fixed_eq_cons (width n : Nat) : ∃ d ds, fixed (width + 1) n = d :: ds ∧ d.isDigit = true := by
  obtain ⟨d, ds, hds⟩ := List.exists_cons_of_length_eq_add_one (length_fixed (width + 1) n)
  exact ⟨d, ds, hds, isDigit_of_mem_fixed (hds ▸ List.mem_cons_self)⟩

/-- A number written with some digits is read from as many digits, and what follows is left. -/
theorem readNumber_fixed (width : Nat) (h : n < 10 ^ (width + 1)) :
    readNumber (width + 1) (fixed (width + 1) n ++ cs) = some (n, cs) := by
  obtain ⟨d, ds, hds, hd⟩ := fixed_eq_cons width n
  have htrim : Text.trimStart (fixed (width + 1) n ++ cs) = fixed (width + 1) n ++ cs := by
    rw [hds, List.cons_append, trimStart_cons (isBlank_of_isDigit hd)]
  have htake : ((fixed (width + 1) n ++ cs).take (width + 1)).takeWhile Char.isDigit = fixed (width + 1) n := by
    rw [List.take_left' (length_fixed ..)]
    exact List.takeWhile_eq_self_iff.mpr fun _ => isDigit_of_mem_fixed
  have hne : (fixed (width + 1) n).isEmpty = false := by rw [hds, List.isEmpty_cons]
  simp only [readNumber, htrim, htake, hne, value_fixed h, List.drop_left]
  rfl

/-! ## The date -/

/-- A year with a sign may have any number of digits. -/
theorem readYear_signed (n : Nat) (h : Over cs) :
    readYear ('-' :: (padded 4 n ++ cs)) = some (-(n : Int), cs) ∧
      readYear ('+' :: (padded 4 n ++ cs)) = some ((n : Int), cs) := by
  have hspan : span (padded 4 n ++ cs) = (padded 4 n, cs) := span_append (fun _ => isDigit_of_mem_padded) h
  have hvalue := value_padded 4 n
  obtain ⟨d, ds, hds⟩ : ∃ d ds, padded 4 n = d :: ds := by
    rw [padded]
    split
    · obtain ⟨d, ds, hds, -⟩ := fixed_eq_cons 3 n
      exact ⟨d, ds, hds⟩
    · obtain ⟨d, ds, hds, -⟩ := plain_eq_cons n
      exact ⟨d, ds, hds⟩
  rw [hds, List.cons_append] at hspan
  rw [hds] at hvalue
  rw [hds, List.cons_append]
  constructor <;> simp [readYear, trimStart_cons, Text.isBlank, hspan, hvalue]

/-- A year is read as it was written: with four digits where they hold it, and with a sign in front
otherwise. -/
theorem readYear_yearText (year : Int) (h : Over cs) : readYear (yearText year ++ cs) = some (year, cs) := by
  rw [yearText]
  split
  · next hfour =>
    have hnumber : readNumber 4 (fixed 4 year.toNat ++ cs) = some (year.toNat, cs) :=
      readNumber_fixed 3 (by omega)
    obtain ⟨d, ds, hds, hd⟩ := fixed_eq_cons 3 year.toNat
    rw [hds, List.cons_append] at hnumber ⊢
    have hplus : d ≠ '+' := ne_of_isDigit hd rfl
    have hminus : d ≠ '-' := ne_of_isDigit hd rfl
    simp [readYear, trimStart_cons (isBlank_of_isDigit hd), hplus, hminus, hnumber, Int.toNat_of_nonneg hfour.1]
  · next hfour =>
    obtain ⟨hminus, hplus⟩ := readYear_signed year.natAbs h
    split
    · next hneg => rw [List.cons_append, hminus, Int.ofNat_natAbs_of_nonpos (Int.le_of_lt hneg), Int.neg_neg]
    · next hpos => rw [List.cons_append, hplus, Int.natAbs_of_nonneg (Int.not_lt.mp hpos)]

theorem readDate_written {year : Int} {month day : Nat} (hmonth : month < 100) (hday : day < 100) :
    readDate (yearText year ++ '-' :: (fixed 2 month ++ '-' :: (fixed 2 day ++ cs))) =
      some (⟨year, month, day⟩, cs) := by
  have hyear : readYear (yearText year ++ '-' :: (fixed 2 month ++ '-' :: (fixed 2 day ++ cs))) =
      some (year, '-' :: (fixed 2 month ++ '-' :: (fixed 2 day ++ cs))) :=
    readYear_yearText year (over_cons.mpr rfl)
  have hmark {cs : List Char} : readMark '-' ('-' :: cs) = some cs := readMark_cons rfl
  simp [readDate, hyear, hmark, readNumber_fixed 1 hmonth, readNumber_fixed 1 hday]

/-! ## The time of day

The fraction of a leap second is written like any other, with second sixty in front. The reader
makes up for that by adding a whole second to the fraction of second fifty-nine. -/

/-- A fraction of at most nine digits is read as if it had been filled up with zeros. -/
theorem readFraction_fixed (hwidth : width < 9) (h : n < 10 ^ (width + 1)) (hover : Over cs) :
    readFraction ('.' :: (fixed (width + 1) n ++ cs)) = some (n * 10 ^ (8 - width), cs) := by
  have hspan : span (fixed (width + 1) n ++ cs) = (fixed (width + 1) n, cs) :=
    span_append (fun _ => isDigit_of_mem_fixed) hover
  have htake : (fixed (width + 1) n).take 9 = fixed (width + 1) n :=
    List.take_of_length_le (by rw [length_fixed]; omega)
  have hlength : 9 - (fixed (width + 1) n).length = 8 - width := by rw [length_fixed]; omega
  rw [readFraction, hspan]
  split
  · next heq =>
    obtain ⟨d, ds, hds, -⟩ := fixed_eq_cons width n
    rw [hds] at heq
    cases heq
  · next digits rest _ heq =>
    obtain ⟨rfl, rfl⟩ := Prod.mk.inj heq
    simp only [htake, hlength, value_fixed h]

/-- A fraction is written with three, six or nine digits, or not at all, and is read again from each
of these forms. -/
theorem readFraction_fractionText (h : n < 10 ^ 9) :
    readFraction (fractionText n ++ 'Z' :: cs) = some (n, 'Z' :: cs) := by
  have hover : Over ('Z' :: cs) := over_cons.mpr rfl
  rw [fractionText]
  split
  · next hzero =>
    rw [hzero]
    rfl
  split
  · next hmillis =>
    rw [List.cons_append, readFraction_fixed (by decide) (by omega) hover]
    have hwhole : n / 10 ^ 6 * 10 ^ 6 = n := by omega
    rw [hwhole]
  split
  · next hmicros =>
    rw [List.cons_append, readFraction_fixed (by decide) (by omega) hover]
    have hwhole : n / 10 ^ 3 * 10 ^ 3 = n := by omega
    rw [hwhole]
  · rw [List.cons_append, readFraction_fixed (by decide) h hover]
    simp

/-- The time of day is read from what was written; second sixty is read as a leap second. -/
theorem readClock_written {hour minute second : Nat} (hhour : hour < 24) (hminute : minute < 60)
    (hsecond : second ≤ 60) (h : n < 10 ^ 9) :
    readClock (fixed 2 hour ++ ':' :: (fixed 2 minute ++ ':' :: (fixed 2 second ++ (fractionText n ++ 'Z' :: cs)))) =
      if second = 60 then some (hour * 3600 + minute * 60 + 59, n + 10 ^ 9, 'Z' :: cs)
      else some (hour * 3600 + minute * 60 + second, n, 'Z' :: cs) := by
  have hmark {cs : List Char} : readMark ':' (':' :: cs) = some cs := readMark_cons rfl
  have hinside : ¬(23 < hour ∨ 59 < minute ∨ 60 < second) := by omega
  simp [readClock, hmark, readNumber_fixed 1 (show hour < 10 ^ 2 by omega),
    readNumber_fixed 1 (show minute < 10 ^ 2 by omega), readNumber_fixed 1 (show second < 10 ^ 2 by omega),
    readFraction_fractionText h, hinside]

/-! ## The instant -/

variable (t : Timestamp)

theorem ofParts?_self : ofParts? t.second t.fraction = some t :=
  dif_pos ⟨t.in_range, t.fraction_lt, t.minute_ends⟩

/-- Time of day and fraction are read as they were written; a leap second is written as the sixtieth
one. -/
theorem readClock_chars (cs : List Char) :
    let clock := (t.second % 86400).toNat
    readClock (fixed 2 (clock / 3600) ++ ':' :: (fixed 2 (clock / 60 % 60) ++
      ':' :: (fixed 2 (clock % 60 + t.fraction / 10 ^ 9) ++ (fractionText (t.fraction % 10 ^ 9) ++ 'Z' :: cs)))) =
      some (clock, t.fraction, 'Z' :: cs) := by
  intro clock
  have hlt := t.fraction_lt
  have hends := t.minute_ends
  rw [readClock_written (by omega) (by omega) (by omega) (Nat.mod_lt _ (by decide))]
  split
  · have hclock : clock / 3600 * 3600 + clock / 60 % 60 * 60 + 59 = clock := by omega
    have hfraction : t.fraction % 10 ^ 9 + 10 ^ 9 = t.fraction := by omega
    rw [hclock, hfraction]
  · have hclock : clock / 3600 * 3600 + clock / 60 % 60 * 60 + (clock % 60 + t.fraction / 10 ^ 9) = clock := by omega
    have hfraction : t.fraction % 10 ^ 9 = t.fraction := by omega
    rw [hclock, hfraction]

/-- The year of an instant is in the range. -/
theorem year_in_range :
    -262143 ≤ (Date.ofDayNumber (t.second / 86400)).year ∧ (Date.ofDayNumber (t.second / 86400)).year ≤ 262142 := by
  obtain ⟨hfirst, hlast⟩ := t.in_range
  have hstart : Calendar.daysBeforeYear (-262143) = minSecond / 86400 + Calendar.epochDay := by decide
  have hend : Calendar.daysBeforeYear (262142 + 1) = maxSecond / 86400 + 1 + Calendar.epochDay := by decide
  exact Date.year_ofDayNumber (by omega) (by omega)

/-- The text of an instant names that instant. -/
theorem ofChars?_chars : ofChars? t.chars = some t := by
  obtain ⟨hvalid, hnumber⟩ := Date.valid_ofDayNumber (t.second / 86400)
  have hyear := year_in_range t
  have hclock := readClock_chars t []
  have hoffset : readOffset ['Z'] = some (0, []) := rfl
  rw [chars]
  -- from here on the date and the seconds of the day are any that belong to the instant
  generalize Date.ofDayNumber (t.second / 86400) = date at *
  generalize hseconds : (t.second % 86400).toNat = clock at *
  have hday := hvalid.day_le
  have hdate (cs : List Char) :
      readDate (yearText date.year ++ '-' :: (fixed 2 date.month ++ '-' :: (fixed 2 date.day ++ cs))) =
        some (date, cs) :=
    readDate_written (Nat.lt_of_le_of_lt hvalid.2.1 (by decide)) (by omega)
  have hinstant : date.dayNumber * 86400 + clock - 0 = t.second := by omega
  simp only [List.append_assoc, List.cons_append] at hclock ⊢
  simp only [ofChars?, hdate, readSeparator, hclock, hoffset, Option.bind_eq_bind, Option.bind_some, hinstant,
    ofParts?_self]
  exact if_pos ⟨rfl, hvalid, hyear⟩

theorem ofText?_text : ofText? t.text = some t := by
  rw [ofText?, text, String.toList_ofList, ofChars?_chars]

end ControlLoop.Timestamp
