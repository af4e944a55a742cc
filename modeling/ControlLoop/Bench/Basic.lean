import ControlLoop.Time.Clocks

/-!
# The bench

A bench is the runtime on which a loop is tried out: everything runs on one thread, and the clock
stands still while anybody can run. The tasks that can run stand in a line in the order in which
they were woken. The first runs until it has to wait; whoever it wakes joins at the end. When nobody
is left in the line, time jumps to the next alarm; all alarms of that moment go off, in the order in
which they were set, before any task that they wake runs.

What a task does is up to a `Machine`; the bench only says whose turn it is. So what happens on a
bench is one of the many orders in which the steps of the machine may happen.
-/

namespace ControlLoop

/-- What a task does after a step. -/
inductive Next where
  /-- it goes on -/
  | goOn
  /-- it waits until it is woken, for ever if it has ended -/
  | wait
  /-- it sleeps until a moment -/
  | sleepUntil (moment : Moment)

/-- What a step of a task leaves behind. -/
structure Turn (σ τ : Type) where
  /-- the state -/
  state : σ
  /-- what the task does next -/
  next : Next
  /-- the tasks that it has started -/
  started : List τ := []

/-- A state that is changed by tasks. -/
structure Machine (σ τ : Type) where
  /-- one step of a task -/
  step : Moment → τ → σ → Turn σ τ
  /-- the tasks that are not asleep and could go on, in the order in which they were woken -/
  awake : Moment → σ → List τ

/-- A state with the tasks that change it. -/
structure Bench {σ τ : Type} (m : Machine σ τ) where
  /-- how much time has passed -/
  now : Moment := 0
  /-- the state -/
  state : σ
  /-- the tasks that can run, the first of which is running -/
  ready : List τ := []
  /-- when sleeping tasks wake up, in the order of time and then of setting -/
  alarms : List (Moment × τ) := []

namespace Bench

variable {σ τ : Type} [DecidableEq τ] {m : Machine σ τ}

/-! ## The line and the alarms -/

/-- Strikes off the tasks that the line holds in the same order. -/
def strike : (ready tasks : List τ) → List τ
  | _, [] => []
  | [], tasks => tasks
  | r :: ready, t :: tasks => if r = t then strike ready tasks else strike ready (t :: tasks)

/-- Adds a task to the line, if it is not in it yet. -/
def enter (ready : List τ) (t : τ) : List τ := if t ∈ ready then ready else ready ++ [t]

/-- Adds tasks to the line, those that are not in it yet. Most of them are, and in the same order,
so these are struck off first. -/
def join (ready tasks : List τ) : List τ := (strike ready tasks).foldl enter ready

theorem foldl_enter_strike (line ready tasks : List τ) (h : ∀ r ∈ ready, r ∈ line) :
    (strike ready tasks).foldl enter line = tasks.foldl enter line := by
  fun_induction strike ready tasks generalizing line with
  | case1 => rfl
  | case2 => rfl
  | case3 ready t tasks ih =>
    have ht : enter line t = line := if_pos (h t List.mem_cons_self)
    rw [List.foldl_cons, ht]
    exact ih line fun r hr => h r (List.mem_cons_of_mem t hr)
  | case4 r ready t tasks _ ih =>
    exact ih line fun s hs => h s (List.mem_cons_of_mem r hs)

/-- Striking off only saves time. -/
theorem join_eq_foldl (ready tasks : List τ) : join ready tasks = tasks.foldl enter ready :=
  foldl_enter_strike ready ready tasks fun _ h => h

/-- Sets an alarm, behind those that go off earlier or at the same moment. -/
def setAlarm (alarms : List (Moment × τ)) (moment : Moment) (task : τ) : List (Moment × τ) :=
  match alarms with
  | [] => [(moment, task)]
  | alarm :: alarms =>
    if alarm.1 ≤ moment then alarm :: setAlarm alarms moment task else (moment, task) :: alarm :: alarms

/-- Time jumps to a moment, and the alarms that are due then go off. -/
def jump (b : Bench m) (moment : Moment) : Bench m :=
  let (due, alarms) := b.alarms.span (·.1 ≤ moment)
  { b with now := moment, ready := join b.ready (due.map (·.2)), alarms }

/-! ## Running -/

/-- Changes the state; tasks that were started or woken join the line. -/
def modify (b : Bench m) (state : σ) (started : List τ) : Bench m :=
  { b with state, ready := join b.ready (started ++ m.awake b.now state) }

/-- One step of the first task in the line. -/
def step? (b : Bench m) : Option (Bench m) :=
  match b.ready with
  | [] => none
  | task :: ready =>
    let turn := m.step b.now task b.state
    let b := match turn.next with
      | .goOn => b
      | .wait => { b with ready }
      | .sleepUntil moment => { b with ready, alarms := setAlarm b.alarms moment task }
    some (b.modify turn.state turn.started)

/-- Runs the tasks in the line until none is left, for at most `fuel` steps. -/
def settle : (fuel : Nat) → Bench m → Bench m
  | 0, b => b
  | fuel + 1, b =>
    match b.step? with
    | none => b
    | some b => settle fuel b

/-- How many steps a bench may take at one moment. -/
def maxSteps : Nat := 10 ^ 9

theorem step?_now {b c : Bench m} (h : b.step? = some c) : c.now = b.now := by
  unfold step? at h
  split at h
  · cases h
  · cases h
    simp only [modify]
    split <;> rfl

theorem settle_now (fuel : Nat) (b : Bench m) : (b.settle fuel).now = b.now := by
  induction fuel generalizing b with
  | zero => rfl
  | succ fuel ih =>
    unfold settle
    split
    · rfl
    · next c hc => rw [ih, step?_now hc]

/-- Lets everything run that can, and then time pass up to `target`, or until `enough` holds of the
state. -/
def passTo (target : Moment) (enough : σ → Bool) (b : Bench m) : Bench m :=
  let c := b.settle maxSteps
  if enough c.state then c
  else
    match c.alarms with
    -- nothing is left to happen, so the rest of the time passes at once
    | [] => { c with now := max c.now target }
    | (due, _) :: _ =>
      if _h : c.now < due ∧ due ≤ target then passTo target enough (c.jump due)
      else { c with now := max c.now target }
termination_by target - b.now
decreasing_by
  have hc : c.now = b.now := settle_now maxSteps b
  rw [hc] at _h
  exact Nat.sub_lt_sub_left (Nat.lt_of_lt_of_le _h.1 _h.2) _h.1

/-! ## From outside -/

/-- The longest that anybody sleeps for a span: thirty years of 365 days. Who asks for more is woken
then. There is no such bound on a sleep until a moment. -/
def longestSleep : Span := Span.ofSeconds (30 * 365 * 86400)

/-- Changes the state from outside, and lets everything run that can. -/
def change (b : Bench m) (state : σ) (started : List τ) : Bench m := (b.modify state started).settle maxSteps

/-- Lets time pass while one sleeps. -/
def advance (b : Bench m) (span : Span) : Bench m := b.passTo (b.now + (min span longestSleep).nanos) fun _ => false

/-- Lets time pass until `enough` holds of the state, or for a span. -/
def await (b : Bench m) (span : Span) (enough : σ → Bool) : Bench m := b.passTo (b.now + span.nanos) enough

end Bench

end ControlLoop
