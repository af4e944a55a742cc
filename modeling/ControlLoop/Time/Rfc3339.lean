import ControlLoop.Text.Blank
import ControlLoop.Time.Timestamp

/-!
# Timestamps as text

The instants of records (`started_at`) are written in the form of RFC 3339, in universal time:
`2024-02-01T00:00:00Z`. Years outside 0..9999 carry a sign, and the fraction has the fewest of 0, 3,
6 or 9 digits that lose nothing.

Reading is more generous: blanks may stand before each number and each separator, numbers may be
short, the date may be followed by `T`, `t` or a space, and any offset from universal time is taken.
-/

namespace ControlLoop.Timestamp

/-! ## Writing -/

/-- The year, with a sign where four digits do not hold it. -/
def yearText (year : Int) : List Char :=
  if 0 ≤ year ∧ year ≤ 9999 then Digits.fixed 4 year.toNat
  else (if year < 0 then '-' else '+') :: Digits.padded 4 year.natAbs

/-- The fraction of a second, with its point. -/
def fractionText (nanos : Nat) : List Char :=
  if nanos = 0 then []
  else if nanos % 10 ^ 6 = 0 then '.' :: Digits.fixed 3 (nanos / 10 ^ 6)
  else if nanos % 10 ^ 3 = 0 then '.' :: Digits.fixed 6 (nanos / 10 ^ 3)
  else '.' :: Digits.fixed 9 nanos

/-- The written form of an instant. -/
def chars (t : Timestamp) : List Char :=
  let date := Date.ofDayNumber (t.second / 86400)
  let clock := (t.second % 86400).toNat
  let leap := t.fraction / 10 ^ 9
  yearText date.year ++ '-' :: Digits.fixed 2 date.month ++ '-' :: Digits.fixed 2 date.day ++
    'T' :: Digits.fixed 2 (clock / 3600) ++ ':' :: Digits.fixed 2 (clock / 60 % 60) ++
    ':' :: Digits.fixed 2 (clock % 60 + leap) ++ fractionText (t.fraction % 10 ^ 9) ++ ['Z']

/-- The written form of an instant, as a string. -/
def text (t : Timestamp) : String := String.ofList t.chars

/-! ## Reading

Each reader takes what it recognises off the front of a text and returns it with what follows. -/

/-- A number of at least one and at most `width` digits, after blanks. -/
def readNumber (width : Nat) (cs : List Char) : Option (Nat × List Char) :=
  let cs := Text.trimStart cs
  let digits := (cs.take width).takeWhile Char.isDigit
  if digits.isEmpty then none else some (Digits.value digits, cs.drop digits.length)

/-- A year: up to four digits, or any number of them after a sign. -/
def readYear (cs : List Char) : Option (Int × List Char) :=
  let signed (sign : Int) (rest : List Char) : Option (Int × List Char) :=
    match Digits.span rest with
    | ([], _) => none
    | (digits, rest) => some (sign * Digits.value digits, rest)
  match Text.trimStart cs with
  | '-' :: rest => signed (-1) rest
  | '+' :: rest => signed 1 rest
  | cs => (readNumber 4 cs).map fun (year, rest) => (year, rest)

/-- The character `c`, after blanks. -/
def readMark (c : Char) (cs : List Char) : Option (List Char) :=
  match Text.trimStart cs with
  | d :: rest => if d = c then some rest else none
  | [] => none

/-- A fraction of a second in nanoseconds, of which nine digits count; none at all is zero. -/
def readFraction : List Char → Option (Nat × List Char)
  | '.' :: cs =>
    match Digits.span cs with
    | ([], _) => none
    | (digits, rest) =>
      let kept := digits.take 9
      some (Digits.value kept * 10 ^ (9 - kept.length), rest)
  | cs => some (0, cs)

/-- The hours and minutes of an offset, in seconds. -/
def readOffsetParts (cs : List Char) : Option (Nat × List Char) :=
  match cs with
  | h₁ :: h₂ :: rest =>
    if h₁.isDigit && h₂.isDigit then
      match rest.dropWhile (fun c => c == ':' || Text.isBlank c) with
      | m₁ :: m₂ :: rest =>
        if m₁.isDigit && m₂.isDigit && m₁ < '6' then
          some (Digits.value [h₁, h₂] * 3600 + Digits.value [m₁, m₂] * 60, rest)
        else none
      | _ => none
    else none
  | _ => none

/-- The offset from universal time in seconds: `UTC` and `Z` in either case, or a sign with hours
and minutes; a day or more is refused. -/
def readOffset (cs : List Char) : Option (Int × List Char) :=
  let signed (sign : Int) (rest : List Char) : Option (Int × List Char) :=
    (readOffsetParts rest).bind fun (seconds, rest) =>
      if seconds < 86400 then some (sign * seconds, rest) else none
  let cs := Text.trimStart cs
  if (cs.take 3).map Char.toUpper = ['U', 'T', 'C'] then some (0, cs.drop 3)
  else
    match cs with
    | 'Z' :: rest | 'z' :: rest => some (0, rest)
    | '+' :: rest => signed 1 rest
    | '-' :: rest => signed (-1) rest
    | '\u2212' :: rest => signed (-1) rest
    | _ => none

/-- The calendar date in front of a text. -/
def readDate (cs : List Char) : Option (Date × List Char) := do
  let (year, cs) ← readYear cs
  let (month, cs) ← readNumber 2 (← readMark '-' cs)
  let (day, cs) ← readNumber 2 (← readMark '-' cs)
  return (⟨year, month, day⟩, cs)

/-- A time of day: seconds since midnight, and nanoseconds beyond them. -/
def readClock (cs : List Char) : Option (Nat × Nat × List Char) := do
  let (hour, cs) ← readNumber 2 cs
  let (minute, cs) ← readNumber 2 (← readMark ':' cs)
  let (second, cs) ← readNumber 2 (← readMark ':' cs)
  let (fraction, cs) ← readFraction cs
  if 23 < hour ∨ 59 < minute ∨ 60 < second then none
  -- a leap second is the fifty-ninth second gone on
  else if second = 60 then return (hour * 3600 + minute * 60 + 59, fraction + 10 ^ 9, cs)
  else return (hour * 3600 + minute * 60 + second, fraction, cs)

/-- The separator between date and time. -/
def readSeparator : List Char → Option (List Char)
  | 'T' :: cs | 't' :: cs | ' ' :: cs => some cs
  | _ => none

/-- The instant that a text names. -/
def ofChars? (cs : List Char) : Option Timestamp := do
  let (date, cs) ← readDate cs
  let (clock, fraction, cs) ← readClock (← readSeparator cs)
  let (offset, cs) ← readOffset cs
  let inRange := -262143 ≤ date.year ∧ date.year ≤ 262142
  if Text.trimStart cs = [] ∧ date.Valid ∧ inRange then
    ofParts? (date.dayNumber * 86400 + clock - offset) fraction
  else none

/-- The instant that a string names. -/
def ofText? (s : String) : Option Timestamp := ofChars? s.toList

end ControlLoop.Timestamp
