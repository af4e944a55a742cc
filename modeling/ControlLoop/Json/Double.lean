import ControlLoop.Text.Digits

/-!
# Double-precision numbers

A number of a JSON value that is no whole number is a finite double, kept as its bits. Its text has
the fewest decimal digits that read back as the same double, and of the candidates with so few
digits the one nearest to it. It is found grid by grid: of the multiples of a power of ten only the
two neighbours of the number can lie in the interval that rounds to it, so the coarsest grid with a
neighbour inside gives the digits.
-/

namespace ControlLoop

/-- A double-precision number. -/
structure Double where
  /-- its sign, exponent and fraction, from the highest bit down -/
  bits : UInt64
  deriving DecidableEq

namespace Double

/-- The double that a machine number is. -/
def ofFloat (f : Float) : Double := ⟨f.toBits⟩

/-- Is the sign bit set? -/
def isNegative (d : Double) : Bool := 2 ^ 63 ≤ d.bits.toNat

/-- The exponent field. -/
def exponentField (d : Double) : Nat := d.bits.toNat / 2 ^ 52 % 2 ^ 11

/-- The fraction field. -/
def fractionField (d : Double) : Nat := d.bits.toNat % 2 ^ 52

/-- The whole number `m` for which the double is `± m · 2 ^ exponent`. -/
def significand (d : Double) : Nat :=
  if d.exponentField = 0 then d.fractionField else 2 ^ 52 + d.fractionField

/-- The exponent of two that belongs to `significand`. -/
def exponent (d : Double) : Int := (max d.exponentField 1 : Nat) - 1075

/-- What rounds to a double: the numbers between two bounds, in quarters of `2 ^ exponent`. -/
structure Interval where
  /-- lower bound -/
  low : Nat
  /-- upper bound -/
  high : Nat
  /-- are the bounds themselves inside? -/
  closed : Bool

/-- The numbers that round to `d`. Below a power of two the spacing of doubles halves, so the lower
half of the interval is shorter there. -/
def interval (d : Double) : Interval :=
  let m := d.significand
  let short := d.fractionField = 0 ∧ 1 < d.exponentField
  ⟨if short then 4 * m - 1 else 4 * m - 2, 4 * m + 2, m % 2 = 0⟩

/-- The neighbour of `d` in the interval on the grid of multiples of `10 ^ k`, as a multiple; of two
the nearer one, and the even one if both are as near. -/
def onGrid? (d : Double) (k : Int) : Option Nat :=
  -- bounds and middle count quarters of `2 ^ exponent`; times `scale`, and a multiple of `10 ^ k` times `unit`,
  -- they are whole numbers of the same size
  let e := d.exponent - 2
  let scale := 2 ^ e.toNat * 10 ^ (-k).toNat
  let unit := 2 ^ (-e).toNat * 10 ^ k.toNat
  let i := d.interval
  let inside (n : Nat) : Bool :=
    if i.closed then i.low * scale ≤ n * unit && n * unit ≤ i.high * scale
    else i.low * scale < n * unit && n * unit < i.high * scale
  let middle := 4 * d.significand * scale
  -- zero reads back as zero, so it stands for no other double
  let below := middle / unit
  match inside below && below != 0, inside (below + 1) with
  | false, false => none
  | true, false => some below
  | false, true => some (below + 1)
  | true, true =>
    let left := middle - below * unit
    let right := (below + 1) * unit - middle
    if left < right then some below
    else if right < left then some (below + 1)
    else some (if below % 2 = 0 then below else below + 1)

/-- The coarsest grid `10 ^ k` with a neighbour inside, of `count` grids from `10 ^ k` down. -/
def coarsest? (d : Double) : (count : Nat) → (k : Int) → Option (Nat × Int)
  | 0, _ => none
  | count + 1, k =>
    match d.onGrid? k with
    | some n => some (n, k)
    | none => coarsest? d count (k - 1)

/-- The shortest decimal `n · 10 ^ k` that reads back as `d`, its sign aside. -/
def shortest (d : Double) : Nat × Int :=
  if d.significand = 0 then (0, 0) else (d.coarsest? 640 309).getD (0, 0)

/-- Positional text where the point falls among the first sixteen digits or at most five places
before them, scientific text elsewhere. -/
def chars (d : Double) : List Char :=
  let (n, k) := d.shortest
  let digits := Digits.plain n
  let point := digits.length + k
  let sign := if d.isNegative then ['-'] else []
  let body :=
    if n = 0 then ['0', '.', '0']
    else if 0 ≤ k ∧ point ≤ 16 then digits ++ List.replicate k.toNat '0' ++ ['.', '0']
    else if 0 < point ∧ point ≤ 16 then digits.take point.toNat ++ '.' :: digits.drop point.toNat
    else if -5 < point ∧ point ≤ 0 then
      '0' :: '.' :: List.replicate (-point).toNat '0' ++ digits
    else
      let exponent := (if point - 1 < 0 then ['-'] else []) ++ Digits.plain (point - 1).natAbs
      match digits with
      | [digit] => digit :: 'e' :: exponent
      | digits => digits.take 1 ++ '.' :: digits.drop 1 ++ 'e' :: exponent
  sign ++ body

end Double

end ControlLoop
