import ControlLoop.Time.Span

/-!
# Backoff

How long a failed key waits before it is tried again, by the number of the retry: a `FixedBackoff`,
an `ExponentialBackoff`, or a policy that somebody else has written. The growing policy doubles the
wait with each retry: the factor stops at the largest 32-bit number, a product that is no span
counts as the cap, and the cap bounds the result.
-/

namespace ControlLoop

/-- A rule for the wait before retry number `n`, counted from 1. -/
inductive Backoff where
  /-- always the same wait -/
  | fixed (delay : Span)
  /-- the wait doubles from `base` up to `cap` -/
  | exponential (base cap : Span)
  /-- anything else, as a function of the retry's number -/
  | custom (delay : Nat → Span)

namespace Backoff

/-- The largest factor of the growing policy. -/
def maxFactor : Nat := 2 ^ 32 - 1

/-- By how much the growing policy scales its base at retry `n`. -/
def factor (n : Nat) : Nat := if n - 1 < 32 then 2 ^ (n - 1) else maxFactor

theorem factor_le (n : Nat) : factor n ≤ maxFactor := by
  unfold factor
  split
  · next h =>
    have : 2 ^ (n - 1) ≤ 2 ^ 31 := Nat.pow_le_pow_right (by decide) (by omega)
    exact Nat.le_trans this (by decide)
  · exact Nat.le_refl _

/-- The wait before retry `n`. -/
def delay : Backoff → Nat → Span
  | fixed d, _ => d
  | exponential base cap, n =>
    match base.scale? (factor n) with
    | some d => min d cap
    | none => cap
  | custom d, n => d n

/-- The cap bounds every wait of the growing policy, also where the product is no span. -/
theorem delay_exponential_le (base cap : Span) (n : Nat) : (exponential base cap).delay n ≤ cap := by
  simp only [delay]
  split
  · next d _ =>
    show (if d ≤ cap then d else cap) ≤ cap
    split
    · assumption
    · exact Nat.le_refl _
  · exact Nat.le_refl _

/-- The waits of a list, one retry after the other; the last one stays. -/
def ofList (delays : List Span) : Backoff :=
  custom fun n => delays.getD (min (n - 1) (delays.length - 1)) Span.zero

end Backoff

end ControlLoop
