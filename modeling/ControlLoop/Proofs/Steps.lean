import Mathlib.Data.List.Basic

/-!
# Taking steps

A system takes one step after the other, each if it is possible, and an onlooker takes down what
happens. A run of two parts is a run of the first followed by a run of the second, and its log is
the one log after the other (`takeSteps_append_eq_some`); whatever is in the log happened in one of
the steps (`exists_step_of_takeSteps`). What is so at first and is kept by every step is so in the
end, together with the log (`takeSteps_induct`).

A serial loop and a daemon are run in this way, each with its own function that takes a step, and so
is a pool (`Pool.run_eq_takeSteps`). An invariant of a run relates the state to the log so far; what
one step adds to the log is known to the step lemma.
-/

namespace ControlLoop

variable {σ α ε : Type} {act : σ → α → Option (σ × List ε)} {s t : σ} {steps : List α} {log : List ε}

/-- Takes steps one after the other, if each is possible, with a log of what happens. -/
def takeSteps (act : σ → α → Option (σ × List ε)) : σ → List α → Option (σ × List ε)
  | s, [] => some (s, [])
  | s, a :: steps =>
    match act s a with
    | none => none
    | some (t, new) => (takeSteps act t steps).map fun (u, later) => (u, new ++ later)

/-- A run of one step and more is the step, and then the run of the others. -/
theorem takeSteps_cons_eq_some {a : α} :
    takeSteps act s (a :: steps) = some (t, log) ↔
      ∃ u new later, act s a = some (u, new) ∧ takeSteps act u steps = some (t, later) ∧ log = new ++ later := by
  rw [takeSteps]
  cases hact : act s a with
  | none => simp
  | some change =>
    obtain ⟨u, new⟩ := change
    simp only [Option.map_eq_some_iff, Option.some.injEq, Prod.mk.injEq]
    constructor
    · rintro ⟨⟨v, later⟩, hrun, rfl, rfl⟩
      exact ⟨u, new, later, ⟨rfl, rfl⟩, hrun, rfl⟩
    · rintro ⟨_, _, later, ⟨rfl, rfl⟩, hrun, rfl⟩
      exact ⟨(t, later), hrun, rfl, rfl⟩

/-- A run of two parts is one run after the other, with one log after the other. -/
theorem takeSteps_append_eq_some {first second : List α} :
    takeSteps act s (first ++ second) = some (t, log) ↔
      ∃ u earlier later, takeSteps act s first = some (u, earlier) ∧ takeSteps act u second = some (t, later) ∧
        log = earlier ++ later := by
  induction first generalizing s log with
  | nil =>
    constructor
    · intro h
      exact ⟨s, [], log, rfl, h, rfl⟩
    · rintro ⟨u, earlier, later, h, hrun, rfl⟩
      cases h
      exact hrun
  | cons a first ih =>
    simp only [List.cons_append, takeSteps_cons_eq_some, ih]
    constructor
    · rintro ⟨s', new, _, hact, ⟨u, earlier, later, h₁, h₂, rfl⟩, rfl⟩
      exact ⟨u, _, later, ⟨s', new, earlier, hact, h₁, rfl⟩, h₂, by rw [List.append_assoc]⟩
    · rintro ⟨u, _, later, ⟨s', new, earlier, hact, h₁, rfl⟩, h₂, rfl⟩
      exact ⟨s', new, _, hact, ⟨u, earlier, later, h₁, h₂, rfl⟩, by rw [List.append_assoc]⟩

/-- What is so at first, and is kept by every step together with what is taken down of it, is so in
the end. -/
theorem takeSteps_induct (Inv : σ → List ε → Prop)
    (hstep : ∀ {s a t earlier new}, Inv s earlier → act s a = some (t, new) → Inv t (earlier ++ new))
    {earlier : List ε} (hs : Inv s earlier) (h : takeSteps act s steps = some (t, log)) : Inv t (earlier ++ log) := by
  induction steps generalizing s earlier log with
  | nil =>
    cases h
    rw [List.append_nil]
    exact hs
  | cons a steps ih =>
    obtain ⟨u, new, later, hact, hrun, rfl⟩ := takeSteps_cons_eq_some.mp h
    rw [← List.append_assoc]
    exact ih (hstep hs hact) hrun

/-- What was taken down happened in a step; a run leads up to the step, and another on to the
end. -/
theorem exists_step_of_takeSteps {before after : List ε} {e : ε}
    (h : takeSteps act s steps = some (t, before ++ e :: after)) :
    ∃ first a second u v earlier early late later, steps = first ++ a :: second ∧
      takeSteps act s first = some (u, earlier) ∧ act u a = some (v, early ++ e :: late) ∧
      takeSteps act v second = some (t, later) ∧ before = earlier ++ early ∧ after = late ++ later := by
  induction steps generalizing s before with
  | nil => simp [takeSteps] at h
  | cons a steps ih =>
    obtain ⟨u, new, later, hact, hrun, heq⟩ := takeSteps_cons_eq_some.mp h
    rcases List.append_eq_append_iff.mp heq with ⟨front, rfl, hlater⟩ | ⟨front, rfl, hlater⟩
    · cases front with
      | nil =>
        -- it stands at the head of what comes later
        rw [List.nil_append] at hlater
        subst hlater
        have hrest : takeSteps act u steps = some (t, [] ++ e :: after) := hrun
        obtain ⟨first, a', second, u', v, earlier, early, late, later', rfl, hfirst, hact', hsecond, hb, ha⟩ := ih hrest
        refine ⟨a :: first, a', second, u', v, _, early, late, later', rfl,
          takeSteps_cons_eq_some.mpr ⟨u, _, earlier, hact, hfirst, rfl⟩, hact', hsecond, ?_, ha⟩
        rw [List.append_assoc, ← hb]
        simp
      | cons e' front =>
        obtain ⟨rfl, rfl⟩ := List.cons.inj hlater
        exact ⟨[], a, steps, s, u, [], before, front, later, rfl, rfl, hact, hrun, rfl, rfl⟩
    · obtain ⟨first, a', second, u', v, earlier, early, late, later', rfl, hfirst, hact', hsecond, hb, ha⟩ :=
        ih (hlater ▸ hrun)
      refine ⟨a :: first, a', second, u', v, _, early, late, later', rfl,
        takeSteps_cons_eq_some.mpr ⟨u, new, earlier, hact, hfirst, rfl⟩, hact', hsecond, ?_, ha⟩
      rw [hb, List.append_assoc]

end ControlLoop
