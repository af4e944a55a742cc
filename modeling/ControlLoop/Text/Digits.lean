/-!
# Decimal digits

How numbers are written in records, instants and spans: plainly, with exactly so many digits, or
with at least so many. Reading is `value`, the base-ten value of a list of digits.
-/

namespace ControlLoop.Digits

-- Powers are the ones of the core library, also where algebra is imported and offers those of its monoids.
attribute [instance (high), default_instance high] instPowNat

/-- The digits of `n`, without leading zeros. -/
def plain (n : Nat) : List Char := Nat.toDigits 10 n

/-- The last `width` digits of `n`. -/
def fixed : (width n : Nat) → List Char
  | 0, _ => []
  | width + 1, n => fixed width (n / 10) ++ [Nat.digitChar (n % 10)]

/-- At least `width` digits: zeros are put in front where there are fewer. -/
def padded (width n : Nat) : List Char :=
  if n < 10 ^ width then fixed width n else plain n

/-- The base-ten value of a list of digits. -/
def value (cs : List Char) : Nat := Nat.ofDigitChars 10 cs 0

/-- The list without the zeros at its end. -/
def trimZeros (cs : List Char) : List Char := (cs.reverse.dropWhile (· == '0')).reverse

/-- The longest run of digits in front, and what follows it. -/
def span (cs : List Char) : List Char × List Char := cs.span Char.isDigit

theorem length_fixed (width n : Nat) : (fixed width n).length = width := by
  induction width generalizing n with
  | zero => rfl
  | succ width ih => simp [fixed, ih]

theorem value_plain (n : Nat) : value (plain n) = n :=
  Nat.ofDigitChars_toDigits (by decide) (by decide)

theorem digitChar_sub_zero {d : Nat} (h : d < 10) : (Nat.digitChar d).toNat - '0'.toNat = d := by
  match d, h with
  | 0, _ | 1, _ | 2, _ | 3, _ | 4, _ | 5, _ | 6, _ | 7, _ | 8, _ | 9, _ => rfl

/-- Digits that hold a number read back as that number. -/
theorem value_fixed {width n : Nat} (h : n < 10 ^ width) : value (fixed width n) = n := by
  induction width generalizing n with
  | zero => rw [Nat.lt_one_iff.mp h]; rfl
  | succ width ih =>
    have hq : n / 10 < 10 ^ width := by
      rw [Nat.div_lt_iff_lt_mul (by decide), ← Nat.pow_succ]; exact h
    have hd : n % 10 < 10 := Nat.mod_lt _ (by decide)
    have := ih hq
    simp only [value, fixed, Nat.ofDigitChars_append, Nat.ofDigitChars_cons, Nat.ofDigitChars_nil] at this ⊢
    rw [this, digitChar_sub_zero hd]
    omega

end ControlLoop.Digits
