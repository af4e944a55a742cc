import ControlLoop.Settings.Config

/-!
# How waits grow

The growing policy is arithmetic on whole nanoseconds: a wait is the scaled base or the cap,
whichever is shorter (`nanos_delay`). A product that is no span needs no case of its own, since it
is longer than every cap.

All else is read off that equation and off the factor, which doubles up to retry 32 and then stops
one short of the next power of two (`factor_eq_min`). So waits never shrink, and lie between base
and cap; but from retry 33 on they are shorter than announced, unless the cap hides it
(`delay_as_announced_iff`).
-/

namespace ControlLoop

namespace Span

theorem min_eq_left {a b : Span} (h : a ≤ b) : min a b = a := if_pos h

/-- A product is no span exactly if it is longer than every span. -/
theorem scale?_eq_none_iff {d : Span} {k : Nat} : d.scale? k = none ↔ 2 ^ 64 * 10 ^ 9 ≤ d.nanos * k := by
  rw [scale?, ofNanos?]
  split
  · next h =>
    exact ⟨fun heq => absurd heq (Option.some_ne_none _), fun hle => absurd h (Nat.not_lt_of_le hle)⟩
  · next h => exact ⟨fun _ => Nat.le_of_not_lt h, fun _ => rfl⟩

end Span

namespace Backoff

variable {m n : Nat}

/-! ## The factor -/

/-- The factor doubles with each retry, up to the largest 32-bit number. -/
theorem factor_eq_min (n : Nat) : factor n = min (2 ^ (n - 1)) maxFactor := by
  rw [factor]
  split
  · next h =>
    have hpow : 2 ^ (n - 1) ≤ 2 ^ 31 := Nat.pow_le_pow_right (by decide) (by omega)
    exact (Nat.min_eq_left (Nat.le_trans hpow (by decide))).symm
  · next h =>
    have hpow : 2 ^ 32 ≤ 2 ^ (n - 1) := Nat.pow_le_pow_right (by decide) (by omega)
    exact (Nat.min_eq_right (Nat.le_trans (by decide) hpow)).symm

theorem one_le_factor (n : Nat) : 1 ≤ factor n := by
  rw [factor_eq_min]
  exact Nat.le_min.mpr ⟨Nat.one_le_two_pow, by decide⟩

theorem factor_mono (h : m ≤ n) : factor m ≤ factor n := by
  have hpow : 2 ^ (m - 1) ≤ 2 ^ (n - 1) := Nat.pow_le_pow_right (by decide) (Nat.sub_le_sub_right h 1)
  rw [factor_eq_min, factor_eq_min]
  exact Nat.le_min.mpr ⟨Nat.le_trans (Nat.min_le_left ..) hpow, Nat.min_le_right ..⟩

/-- The factor misses the power of two from retry 33 on. -/
theorem factor_lt_two_pow (h : 32 < n) : factor n < 2 ^ (n - 1) := by
  have hpow : 2 ^ 32 ≤ 2 ^ (n - 1) := Nat.pow_le_pow_right (by decide) (by omega)
  exact Nat.lt_of_le_of_lt (factor_le n) (Nat.lt_of_lt_of_le (by decide) hpow)

/-! ## The wait

`nanos_delay` turns a wait into arithmetic. `announced` is the same with the power of two in place
of the factor, so the two can differ only where the factors do. -/

variable (base cap : Span)

/-- A wait is the scaled base or the cap, whichever is shorter. -/
theorem nanos_delay (n : Nat) :
    ((exponential base cap).delay n).nanos = min (base.nanos * factor n) cap.nanos := by
  rw [delay]
  split
  · next d hd => rw [Span.nanos_min, Span.ofNanos?_eq_some.mp hd]
  · next hnone =>
    have hlong : cap.nanos < base.nanos * factor n :=
      Nat.lt_of_lt_of_le cap.nanos_lt (Span.scale?_eq_none_iff.mp hnone)
    exact (Nat.min_eq_right (Nat.le_of_lt hlong)).symm

/-- Waits never shrink: a wait is the shorter one of the base times the factor and the cap, and the
factor never shrinks. -/
theorem delay_mono (h : m ≤ n) : (exponential base cap).delay m ≤ (exponential base cap).delay n := by
  have hscaled : base.nanos * factor m ≤ base.nanos * factor n := Nat.mul_le_mul_left _ (factor_mono h)
  show Span.nanos _ ≤ Span.nanos _
  rw [nanos_delay, nanos_delay]
  exact Nat.le_min.mpr ⟨Nat.le_trans (Nat.min_le_left ..) hscaled, Nat.min_le_right ..⟩

/-- No wait is shorter than the base, unless the cap is. -/
theorem min_le_delay (n : Nat) : min base cap ≤ (exponential base cap).delay n := by
  have hscaled : base.nanos ≤ base.nanos * factor n := Nat.le_mul_of_pos_right _ (one_le_factor n)
  show Span.nanos _ ≤ Span.nanos _
  rw [nanos_delay, Span.nanos_min]
  exact Nat.le_min.mpr ⟨Nat.le_trans (Nat.min_le_left ..) hscaled, Nat.min_le_right ..⟩

/-- The wait before retry `n` as it is announced, in nanoseconds: the base doubled with every retry
after the first, or the cap. -/
def announced (base cap : Span) (n : Nat) : Nat := min (base.nanos * 2 ^ (n - 1)) cap.nanos

/-- Up to retry 32, without a base, or with a cap that the largest factor reaches, the wait is the
one that is announced. -/
theorem delay_eq_announced {base cap : Span}
    (h : n ≤ 32 ∨ base = Span.zero ∨ cap.nanos ≤ base.nanos * maxFactor) :
    ((exponential base cap).delay n).nanos = announced base cap n := by
  rw [nanos_delay, announced]
  rcases Nat.lt_or_ge 32 n with hn | hn
  · rcases h with h | rfl | hcap
    · omega
    · rw [Span.zero, Nat.zero_mul, Nat.zero_mul]
    · -- both products reach the cap
      have hfactor : factor n = maxFactor := if_neg (by omega)
      have hle : base.nanos * maxFactor ≤ base.nanos * 2 ^ (n - 1) :=
        Nat.mul_le_mul_left _ (hfactor ▸ Nat.le_of_lt (factor_lt_two_pow hn))
      rw [hfactor, Nat.min_eq_right hcap, Nat.min_eq_right (Nat.le_trans hcap hle)]
  · have hfactor : factor n = 2 ^ (n - 1) := if_pos (by omega)
    rw [hfactor]

/-- From retry 33 on the wait is shorter than announced where there is a base to double and the cap
does not hide it: the factor is less than the power of two. -/
theorem delay_lt_announced {base cap : Span} (hn : 32 < n) (hbase : base ≠ Span.zero)
    (hcap : base.nanos * maxFactor < cap.nanos) :
    ((exponential base cap).delay n).nanos < announced base cap n := by
  have hfactor : factor n = maxFactor := if_neg (by omega)
  have hpos : 0 < base.nanos := Nat.pos_of_ne_zero fun hzero => hbase (Span.ext_nanos hzero)
  have hshort : base.nanos * maxFactor < base.nanos * 2 ^ (n - 1) :=
    Nat.mul_lt_mul_of_pos_left (hfactor ▸ factor_lt_two_pow hn) hpos
  rw [nanos_delay, announced, hfactor, Nat.min_eq_left (Nat.le_of_lt hcap)]
  exact Nat.lt_min.mpr ⟨hshort, hcap⟩

/-- A wait is as announced unless it is the 33rd or a later one, there is a base to double, and the
cap lies above 2^32 - 1 times the base. Nothing else on the way is lost: the wait is always the base
times the factor, or the cap, in whole nanoseconds. A retry that is counted as number zero waits
like the first. -/
theorem delay_as_announced_iff (n : Nat) :
    (((exponential base cap).delay n).nanos = announced base cap n ↔
        n ≤ 32 ∨ base = Span.zero ∨ cap.nanos ≤ base.nanos * (2 ^ 32 - 1)) ∧
      ((exponential base cap).delay n).nanos = min (base.nanos * min (2 ^ (n - 1)) (2 ^ 32 - 1)) cap.nanos ∧
      (exponential base cap).delay 0 = (exponential base cap).delay 1 := by
  refine ⟨⟨fun heq => ?_, delay_eq_announced⟩, by rw [nanos_delay, factor_eq_min, maxFactor], rfl⟩
  rcases Nat.lt_or_ge 32 n with hn | hn
  · by_cases hbase : base = Span.zero
    · exact .inr (.inl hbase)
    · refine .inr (.inr (Nat.le_of_not_lt fun hcap => ?_))
      exact absurd heq (Nat.ne_of_lt (delay_lt_announced hn hbase hcap))
  · exact .inl hn

/-- The 33rd wait from a base of one nanosecond, far below the cap, is one nanosecond shorter than
announced. -/
theorem wait_shorter_than_announced :
    Span.ofNanos 1 ≤ Span.ofSeconds 10 ∧
      ((exponential (Span.ofNanos 1) (Span.ofSeconds 10)).delay 33).nanos = 4294967295 ∧
      announced (Span.ofNanos 1) (Span.ofSeconds 10) 33 = 4294967296 := by
  decide

/-- Waits never shrink, and lie between base and cap, or are the cap where it is below the base; a
product that is no span counts as the cap. So settings that are accepted never make a key wait less
than their first wait or longer than their longest. -/
theorem waits_grow_within_bounds (n : Nat) :
    min base cap ≤ (exponential base cap).delay n ∧
      (exponential base cap).delay n ≤ (exponential base cap).delay (n + 1) ∧
      (exponential base cap).delay (n + 1) ≤ cap ∧
      (base.scale? (factor n) = none → (exponential base cap).delay n = cap) ∧
      ∀ c : Config, c.validate = .ok () → c.backoffBase ≤ c.backoff.delay n ∧ c.backoff.delay n ≤ c.backoffMax := by
  refine ⟨min_le_delay base cap n, delay_mono base cap (Nat.le_succ n), delay_exponential_le base cap (n + 1), ?_, ?_⟩
  · intro hnone
    rw [delay, hnone]
  · intro c hvalid
    obtain ⟨-, -, horder, -⟩ := Config.validate_eq_ok_iff.mp hvalid
    have hmin : min c.backoffBase c.backoffMax ≤ c.backoff.delay n := min_le_delay _ _ n
    rw [Span.min_eq_left horder] at hmin
    exact ⟨hmin, delay_exponential_le _ _ n⟩

/-- Doubling 2^62 seconds twice leaves the spans, so that the second wait is the cap although the
base is close to it; and the waits of settings that differ from the default ones only in their base
are bounded by it. -/
theorem waits_grow_within_bounds_past_overflow :
    (Span.ofSeconds (2 ^ 62)).scale? (factor 3) = none ∧
      (exponential (Span.ofSeconds (2 ^ 62)) Span.longest).delay 3 = Span.longest ∧
      ({ backoffBase := Span.ofMillis 3 } : Config).validate = .ok () ∧
      Span.ofMillis 3 ≤ ({ backoffBase := Span.ofMillis 3 } : Config).backoff.delay 3 := by
  have hnone : (Span.ofSeconds (2 ^ 62)).scale? (factor 3) = none := by decide
  have hvalid : ({ backoffBase := Span.ofMillis 3 } : Config).validate = .ok () := rfl
  obtain ⟨-, -, -, hover, hconfig⟩ := waits_grow_within_bounds (Span.ofSeconds (2 ^ 62)) Span.longest 3
  exact ⟨hnone, hover hnone, hvalid, (hconfig _ hvalid).1⟩

end Backoff

end ControlLoop
