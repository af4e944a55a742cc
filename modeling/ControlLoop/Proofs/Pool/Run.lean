import ControlLoop.Loop.PoolStep
import ControlLoop.Proofs.Steps

/-!
# Runs of a pool

A run is a list of steps, each with what the clocks show when it is taken, that are possible one
after the other. Triggers, workers, timers, the resync and the supervisor may take turns in any
order, so whatever holds of all runs holds of every interleaving. What an onlooker takes down along
a run is its log.

No run loses or reorders notices: a run of two parts is a run of the first followed by a run of the
second, and its log is the one log after the other (`run_append_eq_some`). What each step keeps is
kept by every run (`run_keeps`).

A `Log` is read through filters: what is `about` a key, the `attempts` of a key, the `records` and
those of one key (`recordsOf`). All of them are taken over by `++`, so a statement about a run is
shown by an induction over its steps.
-/

namespace ControlLoop

namespace Notice

/-- Is the notice about a key? -/
def concerns (key : Key) : Notice → Bool
  | accepted k _ | refused k | delivered k _ | began k | delayed k _ | released k => k = key
  | recorded r => r.key = key

/-- Is the notice about an attempt of a key: that it was delivered, that the handler began, or that
it was recorded? -/
def ofAttempt (key : Key) : Notice → Bool
  | delivered k _ | began k => k = key
  | recorded r => r.key = key
  | accepted .. | refused _ | delayed .. | released _ => false

/-- The record that the notice tells of. -/
def record? : Notice → Option Record
  | recorded r => some r
  | accepted .. | refused _ | delivered .. | began _ | delayed .. | released _ => none

theorem concerns_of_ofAttempt {key : Key} {n : Notice} (h : n.ofAttempt key = true) : n.concerns key = true := by
  cases n <;> first | exact h | cases h

/-- A notice that tells of a record is about the key of the record, and about no other. -/
theorem concerns_of_record? {key : Key} {n : Notice} {r : Record} (h : n.record? = some r) :
    n.concerns key = decide (r.key = key) := by
  cases n <;> cases h
  rfl

end Notice

namespace Pool

/-- What an onlooker takes down: notices, each with its moment. -/
abbrev Log := List (Moment × Notice)

/-- The part of a log that is about a key. -/
def about (key : Key) (log : Log) : Log := log.filter (·.2.concerns key)

/-- The part of a log that is about the attempts of a key. -/
def attempts (key : Key) (log : Log) : Log := log.filter (·.2.ofAttempt key)

/-- The records that a log tells of, oldest first. -/
def records (log : Log) : List Record := log.filterMap (·.2.record?)

/-- The records of a key in a log, oldest first. -/
def recordsOf (key : Key) (log : Log) : List Record := (records log).filter (·.key = key)

/-- The part of a log about a key is gathered piece by piece. -/
@[simp] theorem about_append (key : Key) (l₁ l₂ : Log) : about key (l₁ ++ l₂) = about key l₁ ++ about key l₂ :=
  List.filter_append ..

/-- What is about a key behind and in front of a notice that is about it. -/
theorem about_append_cons {key : Key} {before after : Log} {t : Moment} {n : Notice} (hn : n.concerns key = true) :
    about key (before ++ (t, n) :: after) = about key before ++ (t, n) :: about key after := by
  rw [about_append]
  congr 1
  exact List.filter_cons_of_pos hn

/-- The attempts of a key in two parts of a log are those of the first and then those of the
second. -/
@[simp] theorem attempts_append (key : Key) (l₁ l₂ : Log) :
    attempts key (l₁ ++ l₂) = attempts key l₁ ++ attempts key l₂ := List.filter_append ..

/-- The records of two logs, one after the other, are those of the first and then those of the
second. -/
@[simp] theorem records_append (l₁ l₂ : Log) : records (l₁ ++ l₂) = records l₁ ++ records l₂ :=
  List.filterMap_append

/-- The records of a key in two parts of a log are those of the first and then those of the
second. -/
@[simp] theorem recordsOf_append (key : Key) (l₁ l₂ : Log) :
    recordsOf key (l₁ ++ l₂) = recordsOf key l₁ ++ recordsOf key l₂ := by
  rw [recordsOf, records_append, List.filter_append]
  rfl

/-- What is about an attempt of a key is about the key. -/
theorem attempts_about (key : Key) (log : Log) : attempts key (about key log) = attempts key log := by
  rw [attempts, about, List.filter_filter]
  refine List.filter_congr fun e _ => ?_
  cases h : e.2.ofAttempt key
  · rfl
  · exact Notice.concerns_of_ofAttempt h

/-- Whoever looks only at what is about a key still finds all its records. -/
theorem recordsOf_about (key : Key) (log : Log) : recordsOf key (about key log) = recordsOf key log := by
  rw [recordsOf, recordsOf, records, records, about, List.filterMap_filter, List.filter_filterMap,
    List.filter_filterMap]
  congr 1
  funext e
  cases hr : e.2.record? with
  | none => simp
  | some r =>
    rw [Notice.concerns_of_record? hr]
    by_cases hk : r.key = key <;> simp [hk, Option.filter]

/-! ## Runs

A run is possible if each of its steps is, from the pool that the step before has left. It may be
taken apart at its first step (`run_cons_eq_some`), at its last (`run_concat_eq_some`) or between
two of them (`run_append_eq_some`), and its log falls apart with it. An entry of the log is traced
back to its step by `exists_act_of_run`. -/

/-- Takes steps one after the other, if each is possible. The log has the notices of all steps, each
with the moment that the clock showed in the step. -/
def run (setup : Setup) : Pool → List (Clocks × Action) → Option (Pool × Log)
  | p, [] => some (p, [])
  | p, (clocks, a) :: steps =>
    match p.act setup clocks a with
    | none => none
    | some (q, notices) => (run setup q steps).map fun (r, log) => (r, notices.map (clocks.now, ·) ++ log)

/-- Steps that are all taken while the clocks show the same. -/
def allAt (clocks : Clocks) (actions : List Action) : List (Clocks × Action) := actions.map (clocks, ·)

/-- Time does not go back along the steps. -/
def InOrder (steps : List (Clocks × Action)) : Prop := (steps.map (·.1.now)).Pairwise (· ≤ ·)

theorem inOrder_allAt (clocks : Clocks) (actions : List Action) : InOrder (allAt clocks actions) := by
  rw [InOrder, allAt, List.map_map]
  exact List.pairwise_map.mpr (List.pairwise_of_forall fun _ _ => Nat.le_refl _)

variable {setup : Setup} {p q r : Pool} {log : Log}

/-- A run begins with its first step: the step has to be possible, and the rest is a run from the
pool that it leaves. -/
theorem run_cons_eq_some {clocks : Clocks} {a : Action} {steps : List (Clocks × Action)} :
    run setup p ((clocks, a) :: steps) = some (r, log) ↔
      ∃ q notices later, p.act setup clocks a = some (q, notices) ∧ run setup q steps = some (r, later) ∧
        log = notices.map (clocks.now, ·) ++ later := by
  rw [run]
  cases hact : p.act setup clocks a with
  | none => simp
  | some change =>
    obtain ⟨q, notices⟩ := change
    simp only [Option.map_eq_some_iff, Prod.exists, Prod.mk.injEq, Option.some.injEq]
    constructor
    · rintro ⟨r', later, hrun, rfl, rfl⟩
      exact ⟨q, notices, later, ⟨rfl, rfl⟩, hrun, rfl⟩
    · rintro ⟨_, _, later, ⟨rfl, rfl⟩, hrun, rfl⟩
      exact ⟨r, later, hrun, rfl, rfl⟩

/-- A run of two parts is a run of the first followed by a run of the second, and its log is the one
log after the other. -/
theorem run_append_eq_some {first second : List (Clocks × Action)} :
    run setup p (first ++ second) = some (r, log) ↔
      ∃ q earlier later, run setup p first = some (q, earlier) ∧ run setup q second = some (r, later) ∧
        log = earlier ++ later := by
  induction first generalizing p log with
  | nil =>
    constructor
    · intro h
      exact ⟨p, [], log, rfl, h, rfl⟩
    · rintro ⟨q, earlier, later, h, hrun, rfl⟩
      cases h
      exact hrun
  | cons step first ih =>
    obtain ⟨clocks, a⟩ := step
    simp only [List.cons_append, run_cons_eq_some, ih]
    constructor
    · rintro ⟨p', notices, _, hact, ⟨q, earlier, later, h₁, h₂, rfl⟩, rfl⟩
      exact ⟨q, _, later, ⟨p', notices, earlier, hact, h₁, rfl⟩, h₂, by rw [List.append_assoc]⟩
    · rintro ⟨q, _, later, ⟨p', notices, earlier, hact, h₁, rfl⟩, h₂, rfl⟩
      exact ⟨p', notices, _, hact, ⟨q, earlier, later, h₁, h₂, rfl⟩, by rw [List.append_assoc]⟩

/-- A run ends with its last step. Most inductions over a run go this way, as the log then grows at
its end. -/
theorem run_concat_eq_some {clocks : Clocks} {a : Action} {steps : List (Clocks × Action)} :
    run setup p (steps ++ [(clocks, a)]) = some (r, log) ↔
      ∃ q earlier notices, run setup p steps = some (q, earlier) ∧ q.act setup clocks a = some (r, notices) ∧
        log = earlier ++ notices.map (clocks.now, ·) := by
  simp only [run_append_eq_some, run_cons_eq_some]
  constructor
  · rintro ⟨q, earlier, _, h, ⟨_, notices, _, hact, ⟨⟩, rfl⟩, rfl⟩
    exact ⟨q, earlier, notices, h, hact, by rw [List.append_nil]⟩
  · rintro ⟨q, earlier, notices, h, hact, rfl⟩
    exact ⟨q, earlier, _, h, ⟨r, notices, [], hact, rfl, rfl⟩, by rw [List.append_nil]⟩

/-- A run of a pool takes its steps as any system does; what is taken down of a step is given its
moment. -/
theorem run_eq_takeSteps (setup : Setup) (p : Pool) (steps : List (Clocks × Action)) :
    run setup p steps = takeSteps (fun p (s : Clocks × Action) =>
      (p.act setup s.1 s.2).map fun change => (change.1, change.2.map (s.1.now, ·))) p steps := by
  induction steps generalizing p with
  | nil => rfl
  | cons step steps ih =>
    obtain ⟨clocks, a⟩ := step
    rw [run, takeSteps]
    cases p.act setup clocks a with
    | none => rfl
    | some change => exact congrArg (Option.map _) (ih change.1)

/-- What an onlooker has taken down happened in a step; a run leads up to the step, and another on
to the end. Statements about an entry of a log are shown by cutting the run there. -/
theorem exists_act_of_run {steps : List (Clocks × Action)} {before after : Log} {t : Moment} {n : Notice}
    (h : run setup p steps = some (r, before ++ (t, n) :: after)) :
    ∃ first clocks a second q q' earlier later early late, run setup p first = some (q, earlier) ∧
      q.act setup clocks a = some (q', early ++ n :: late) ∧ run setup q' second = some (r, later) ∧
      t = clocks.now ∧ before = earlier ++ early.map (clocks.now, ·) ∧ after = late.map (clocks.now, ·) ++ later ∧
      steps = first ++ (clocks, a) :: second := by
  rw [run_eq_takeSteps] at h
  obtain ⟨first, ⟨clocks, a⟩, second, q, q', earlier, early, late, later, rfl, hfirst, hstep, hsecond, rfl, rfl⟩ :=
    exists_step_of_takeSteps h
  rw [← run_eq_takeSteps] at hfirst hsecond
  obtain ⟨⟨_, notices⟩, hact, hchange⟩ := Option.map_eq_some_iff.mp hstep
  obtain ⟨rfl, hnotices⟩ := Prod.mk.inj hchange
  -- the notice stands among those of the step, some in front of it and some behind
  obtain ⟨early, rest, rfl, rfl, hrest⟩ := List.map_eq_append_iff.mp hnotices
  obtain ⟨n', late, rfl, hn, rfl⟩ := List.map_eq_cons_iff.mp hrest
  obtain ⟨rfl, rfl⟩ := Prod.mk.inj hn
  exact ⟨first, clocks, a, second, q, _, earlier, later, early, late, hfirst, hact, hsecond, rfl, rfl, rfl, rfl⟩

/-- What an onlooker has taken down bears the moment of a step. -/
theorem exists_step_of_mem_log {steps : List (Clocks × Action)} {e : Moment × Notice}
    (h : run setup p steps = some (q, log)) (he : e ∈ log) : ∃ s ∈ steps, e.1 = s.1.now := by
  obtain ⟨before, after, rfl⟩ := List.append_of_mem he
  obtain ⟨first, clocks, a, second, -, -, -, -, -, -, -, -, -, ht, -, -, rfl⟩ := exists_act_of_run h
  exact ⟨(clocks, a), by simp, ht⟩

/-- If time does not go back along the steps, it does not along the log. -/
theorem pairwise_log {steps : List (Clocks × Action)} (horder : InOrder steps)
    (h : run setup p steps = some (q, log)) : log.Pairwise fun e e' => e.1 ≤ e'.1 := by
  induction steps generalizing p log with
  | nil =>
    cases h
    exact List.Pairwise.nil
  | cons step steps ih =>
    obtain ⟨clocks, a⟩ := step
    obtain ⟨p', notices, later, -, hrun, rfl⟩ := run_cons_eq_some.mp h
    obtain ⟨hfirst, hrest⟩ := List.pairwise_cons.mp horder
    refine List.pairwise_append.mpr ⟨?_, ih hrest hrun, fun e he e' he' => ?_⟩
    · exact List.pairwise_map.mpr (List.pairwise_of_forall fun _ _ => Nat.le_refl _)
    · obtain ⟨n, -, rfl⟩ := List.mem_map.mp he
      obtain ⟨s, hs, hnow⟩ := exists_step_of_mem_log hrun he'
      rw [hnow]
      exact hfirst _ (List.mem_map.mpr ⟨s, hs, rfl⟩)

/-- What every step keeps is kept by every run. -/
theorem run_keeps (Inv : Pool → Prop)
    (hstep : ∀ {p q clocks a notices}, Inv p → p.act setup clocks a = some (q, notices) → Inv q)
    {steps : List (Clocks × Action)} (hp : Inv p) (h : run setup p steps = some (q, log)) : Inv q := by
  induction steps generalizing p log with
  | nil =>
    cases h
    exact hp
  | cons step steps ih =>
    obtain ⟨clocks, a⟩ := step
    obtain ⟨p', notices, later, hact, hrun, -⟩ := run_cons_eq_some.mp h
    exact ih (hstep hp hact) hrun

end Pool

end ControlLoop
