import ControlLoop.Json.Double

/-!
# Numbers in JSON

What the JSON parser of the daemon makes of a numeral. It is a whole part and perhaps a fraction and
an exponent. Without the latter two it is a whole number as long as 64 bits hold it; everything else
is a double. The digits of a numeral are gathered into a 64-bit significand as long as they fit:
later digits of the whole part only raise the exponent, later digits of the fraction do not count.
The significand is then scaled by a power of ten in machine arithmetic, and a numeral that leaves
the doubles has no value.
-/

namespace ControlLoop.Json

/-- A number in JSON. -/
inductive Number where
  /-- a whole number from -2^63 to 2^64 - 1 -/
  | whole (n : Int)
  /-- any other number -/
  | double (d : Double)
  deriving DecidableEq

/-- A number as it is spelled. -/
structure Numeral where
  /-- does it have a minus sign? -/
  negative : Bool
  /-- the digits before the point -/
  wholeDigits : List Char
  /-- the digits after the point, if there is one -/
  fractionDigits : Option (List Char)
  /-- the exponent, if there is one: is it negative, and its digits -/
  exponentDigits : Option (Bool × List Char)

namespace Numeral

/-! ## Spelling -/

/-- The digits after a point in front of the text. -/
def readFraction : List Char → Option (Option (List Char) × List Char)
  | '.' :: cs =>
    match Digits.span cs with
    | ([], _) => none
    | (digits, rest) => some (some digits, rest)
  | cs => some (none, cs)

/-- The digits after a sign. -/
def readExponentDigits (negative : Bool) (cs : List Char) : Option (Option (Bool × List Char) × List Char) :=
  match Digits.span cs with
  | ([], _) => none
  | (digits, rest) => some (some (negative, digits), rest)

/-- The exponent in front of the text. -/
def readExponent : List Char → Option (Option (Bool × List Char) × List Char)
  | 'e' :: '-' :: cs | 'E' :: '-' :: cs => readExponentDigits true cs
  | 'e' :: '+' :: cs | 'E' :: '+' :: cs => readExponentDigits false cs
  | 'e' :: cs | 'E' :: cs => readExponentDigits false cs
  | cs => some (none, cs)

/-- The whole part: a zero, or digits that do not start with one. -/
def readWhole (cs : List Char) : Option (List Char × List Char) :=
  match Digits.span cs with
  | ([], _) => none
  | ('0' :: _ :: _, _) => none
  | (digits, rest) => some (digits, rest)

/-- The numeral in front of a text. -/
def read (cs : List Char) : Option (Numeral × List Char) := do
  let (negative, cs) := match cs with
    | '-' :: cs => (true, cs)
    | cs => (false, cs)
  let (wholeDigits, cs) ← readWhole cs
  let (fractionDigits, cs) ← readFraction cs
  let (exponentDigits, cs) ← readExponent cs
  return (⟨negative, wholeDigits, fractionDigits, exponentDigits⟩, cs)

/-! ## Value -/

/-- Gathers digits into a significand while it stays below 2^64; returns how many are left. -/
def gather : (significand : Nat) → List Char → Nat × Nat
  | significand, [] => (significand, 0)
  | significand, c :: cs =>
    let next := significand * 10 + (c.toNat - '0'.toNat)
    -- the first digit that does not fit ends the gathering, even if a later one would
    if next < 2 ^ 64 then gather next cs else (significand, (c :: cs).length)

/-- The largest power of ten that is scaled by in one step. -/
def maxPower : Nat := 308

/-- A power of ten as a machine number. -/
def power (e : Nat) : Float := Float.ofScientific 1 false e

/-- Divides by `10 ^ e`, in steps that machine numbers allow. -/
def divide (f : Float) (e : Nat) : Float :=
  if e ≤ maxPower then f / power e
  else if f == 0 then f
  else divide (f / power maxPower) (e - maxPower)
termination_by e
decreasing_by simp only [maxPower] at *; omega

/-- The significand times a power of ten, if it is finite. -/
def scale? (significand : Nat) (exponent : Int) : Option Float :=
  let f := (UInt64.ofNat significand).toFloat
  if exponent < 0 then some (divide f exponent.natAbs)
  else if exponent.toNat ≤ maxPower then
    let f := f * power exponent.toNat
    if f.isFinite then some f else none
  else if f == 0 then some f
  else none

/-- The digits of an exponent stop counting at the largest signed 32-bit number. -/
def maxExponent : Nat := 2 ^ 31 - 1

/-- The size of the number as a double, if there is one. -/
def magnitude? (n : Numeral) : Option Float :=
  let (significand, dropped) := gather 0 n.wholeDigits
  let fraction := n.fractionDigits.getD []
  let (significand, ignored) := gather significand fraction
  let exponent : Int := dropped - (fraction.length - ignored : Nat)
  match n.exponentDigits with
  | none => scale? significand exponent
  | some (negative, digits) =>
    let e := Digits.value digits
    if maxExponent < e then if significand ≠ 0 ∧ !negative then none else some 0
    else scale? significand (if negative then exponent - e else exponent + e)

/-- The number, if it is one. -/
def value? (n : Numeral) : Option Number :=
  let whole := Digits.value n.wholeDigits
  let plain := n.fractionDigits.isNone && n.exponentDigits.isNone
  if plain && !n.negative && whole < 2 ^ 64 then some (.whole whole)
  else if plain && n.negative && 0 < whole && whole ≤ 2 ^ 63 then some (.whole (-whole))
  else n.magnitude?.map fun f => .double (.ofFloat (if n.negative then -f else f))

end Numeral

/-- The text of a number. -/
def Number.chars : Number → List Char
  | whole (.ofNat n) => Digits.plain n
  | whole (.negSucc n) => '-' :: Digits.plain (n + 1)
  | double d => d.chars

end ControlLoop.Json
