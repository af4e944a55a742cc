import ControlLoop.Bench.Basic

/-!
# What a bench keeps

The bench says whose turn it is, and when time passes; the state is changed by the tasks alone. So
what every step of a task keeps holds of the state at all times, whatever the order in which the
bench lets the tasks run.

This is what `Inv` stands for in the lemmas: any property of states that every step of a task keeps.
Each function of the bench that lets tasks run, from a single step to a client that waits, has one
lemma that says that it keeps it too.
-/

namespace ControlLoop.Bench

variable {σ τ : Type} [DecidableEq τ] {m : Machine σ τ} {Inv : σ → Prop}

/-- The first task in the line takes its turn. -/
theorem step?_keeps (hstep : ∀ now task s, Inv s → Inv (m.step now task s).state) {b c : Bench m} (hb : Inv b.state)
    (h : b.step? = some c) : Inv c.state := by
  unfold step? at h
  split at h
  · cases h
  · cases h
    exact hstep _ _ _ hb

/-- Tasks take turns until all of them rest, or for as many turns as there is fuel. -/
theorem settle_keeps (hstep : ∀ now task s, Inv s → Inv (m.step now task s).state) (fuel : Nat) {b : Bench m}
    (hb : Inv b.state) : Inv (b.settle fuel).state := by
  induction fuel generalizing b with
  | zero => exact hb
  | succ fuel ih =>
    unfold settle
    split
    · exact hb
    · next c hc => exact ih (step?_keeps hstep hb hc)

/-- Time passes up to a moment, with the turns of the tasks that it wakes. -/
theorem passTo_keeps (hstep : ∀ now task s, Inv s → Inv (m.step now task s).state) (target : Moment)
    (enough : σ → Bool) {b : Bench m} (hb : Inv b.state) : Inv (passTo target enough b).state := by
  fun_induction passTo target enough b with
  | case1 b c | case2 b c | case4 b c => exact settle_keeps hstep maxSteps hb
  | case3 b c _ due _ _ _ _ ih => exact ih (settle_keeps hstep maxSteps hb)

theorem change_keeps (hstep : ∀ now task s, Inv s → Inv (m.step now task s).state) (b : Bench m) {state : σ}
    (started : List τ) (hs : Inv state) : Inv (b.change state started).state :=
  settle_keeps hstep maxSteps hs

theorem await_keeps (hstep : ∀ now task s, Inv s → Inv (m.step now task s).state) (span : Span)
    (enough : σ → Bool) {b : Bench m} (hb : Inv b.state) : Inv (b.await span enough).state :=
  passTo_keeps hstep _ enough hb

end ControlLoop.Bench
