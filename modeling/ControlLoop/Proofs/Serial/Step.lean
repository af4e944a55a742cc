import ControlLoop.Loop.Serial

/-!
# What a step of a serial loop can do

`Serial.act` once more as a list of outcomes, each with everything that was checked for it, the loop
that it leaves behind and its notices. `step_of_act` is the only place where `Serial.act` is taken
apart.

A theorem about all steps goes by the cases of `Step`: what a case says of the stage of the worker,
of the line and of the flags is all that was checked. A trigger is one step here; who may come in
between its parts is the matter of `Hall`.
-/

namespace ControlLoop.Serial

/-- The outcomes of a step. -/
inductive Step (clocks : Clocks) (s : Serial) : Action → Serial → List Notice → Prop where
  -- triggers
  | accepted {key kind} (ho : s.stopping = false) (hp : s.phase ≠ .stopped) :
    Step clocks s (.trigger key kind) { s with line := s.line ++ [(key, kind)] } [.accepted key kind]
  | refused {key kind} (hc : s.stopping = true ∨ s.phase = .stopped) :
    Step clocks s (.trigger key kind) s [.refused key]
  -- the life of the loop
  | started (hi : s.phase = .idle) : Step clocks s .run { s with phase := .running, worker := .asking } []
  | stopRequested : Step clocks s .stop { s with stopRequested := true } []
  -- the worker and the line
  | heard (hw : s.worker = .asking) (hr : s.stopRequested = true) (ho : s.stopping = false) :
    Step clocks s .work { s with stopping := true } []
  | took {key kind rest} (hw : s.worker = .asking) (hr : s.stopRequested = true → s.stopping = true)
      (hl : s.line = (key, kind) :: rest) :
    Step clocks s .work { s with line := rest, worker := .holding key kind } [.delivered key kind]
  | ended (hw : s.worker = .asking) (hs : s.stopping = true) (hl : s.line = []) :
    Step clocks s .work { s with phase := .stopped, worker := .finished } []
  -- the worker and the handler
  | began {key kind} (hw : s.worker = .holding key kind) :
    Step clocks s .work { s with worker := .handling ⟨key, kind, 0, clocks.wall, clocks.now⟩ } [.began key]
  | settled {a result} (hw : s.worker = .handling a) :
    Step clocks s (.finish result) { s with worker := .settled a (a.elapsed clocks.now) (outcome result) } []
  | recorded {a d o} (hw : s.worker = .settled a d o) :
    Step clocks s .work { (s.recordAttempt a d o).1 with worker := .asking }
      [.recorded (a.record (Uuid.ofAttempt s.recordCount) d o)]

variable {clocks : Clocks} {s s' : Serial} {a : Action} {notices : List Notice}

/-- A worker that asks for the next trigger hears of the signal to stop first, and only then looks
into the line. -/
theorem step_of_ask (hw : s.worker = .asking) (h : s.ask = some (s', notices)) : Step clocks s .work s' notices := by
  unfold ask at h
  by_cases hc : s.stopRequested = true ∧ ¬s.stopping = true
  · rw [if_pos hc] at h
    cases h
    exact .heard hw hc.1 (Bool.eq_false_iff.mpr hc.2)
  · rw [if_neg hc] at h
    have hr : s.stopRequested = true → s.stopping = true := fun hr =>
      Decidable.byContradiction fun hs => hc ⟨hr, hs⟩
    split at h
    · next hl =>
      cases h
      exact .took hw hr hl
    · next hl =>
      split at h
      · next hs =>
        cases h
        exact .ended hw hs hl
      · cases h

/-- What the worker does depends on its stage: it asks, begins to handle what it holds, or records
what it has settled. -/
theorem step_of_work (h : s.work clocks = some (s', notices)) : Step clocks s .work s' notices := by
  unfold work at h
  cases hw : s.worker with
  | absent | handling | finished =>
    rw [hw] at h
    cases h
  | asking =>
    rw [hw] at h
    exact step_of_ask hw h
  | holding key kind =>
    rw [hw] at h
    cases h
    exact .began hw
  | settled a d o =>
    rw [hw] at h
    cases h
    exact .recorded hw

/-- Every step has one of the outcomes. -/
theorem step_of_act (h : s.act clocks a = some (s', notices)) : Step clocks s a s' notices := by
  cases a with
  | trigger key kind =>
    by_cases hc : s.stopping = true ∨ s.phase = .stopped
    · simp only [act, trigger, if_pos hc] at h
      cases h
      exact .refused hc
    · simp only [act, trigger, if_neg hc] at h
      cases h
      obtain ⟨ho, hp⟩ := not_or.mp hc
      exact .accepted (Bool.eq_false_iff.mpr ho) hp
  | run =>
    simp only [act] at h
    split at h
    · next hi =>
      cases h
      exact .started hi
    · cases h
  | stop =>
    cases h
    exact .stopRequested
  | work => exact step_of_work h
  | finish result =>
    cases hw : s.worker with
    | handling a =>
      simp only [act, hw] at h
      cases h
      exact .settled hw
    | absent | asking | holding | settled | finished =>
      simp only [act, hw] at h
      cases h

end ControlLoop.Serial
