import ControlLoop.Loop.Handler
import ControlLoop.Loop.Notice
import ControlLoop.Loop.Phase
import ControlLoop.Record.Ledger

/-!
# The serial loop

A serial loop is a `OneWorkerSyncer`: it runs the handler on every trigger, one after the other, in
the order in which they came. It folds nothing and tries nothing again: a failed attempt is final.
Once told to stop it takes no more triggers and works off those it has.

As for the pool, `Serial.act` takes one step, and everything that goes on at once is a sequence of
steps.
-/

namespace ControlLoop

namespace Serial

/-- Where the worker stands. -/
inductive Stage where
  /-- the loop does not run yet -/
  | absent
  /-- it looks for a trigger, or for the signal to stop -/
  | asking
  /-- it has taken a trigger -/
  | holding (key : Key) (kind : Trigger)
  /-- it runs the handler -/
  | handling (attempt : Attempt)
  /-- the outcome is known -/
  | settled (attempt : Attempt) (duration : Span) (outcome : Outcome)
  /-- the loop is stopped -/
  | finished
  deriving DecidableEq

end Serial

/-- A loop with one worker. -/
structure Serial where
  /-- the triggers not handled yet, oldest first -/
  line : List (Key × Trigger) := []
  /-- the newest records -/
  ledger : Ledger
  /-- how many records have been made -/
  recordCount : Nat := 0
  /-- how far the loop has come -/
  phase : Phase := .idle
  /-- has the signal to stop been given? -/
  stopRequested : Bool := false
  /-- has the worker seen the signal? -/
  stopping : Bool := false
  /-- the worker -/
  worker : Serial.Stage := .absent

namespace Serial

/-- A loop that has not run, with room for some records. -/
def fresh (ledgerCapacity : Nat) : Serial := { ledger := Ledger.empty ledgerCapacity }

/-- Asks for a key to be handled; false if the loop takes no more. -/
def trigger (s : Serial) (key : Key) (kind : Trigger) : Bool × Serial :=
  if s.stopping ∨ s.phase = .stopped then (false, s) else (true, { s with line := s.line ++ [(key, kind)] })

/-! ## Steps -/

/-- A step of a loop. -/
inductive Action where
  /-- somebody triggers a key -/
  | trigger (key : Key) (kind : Trigger)
  /-- the loop starts to run -/
  | run
  /-- the signal to stop is given -/
  | stop
  /-- the worker, not running the handler, moves on -/
  | work
  /-- the handler ends -/
  | finish (result : Result)

/-- A loop after a step, and the notices of the step. -/
abbrev Change := Serial × List Notice

/-- The worker looks for a trigger. The signal to stop comes first; after it the loop ends when none
is left. -/
def ask (s : Serial) : Option Change :=
  -- triggers are refused from this step on, and not already when the signal is given
  if s.stopRequested ∧ ¬s.stopping then some ({ s with stopping := true }, [])
  else
    match s.line with
    | (key, kind) :: line => some ({ s with line, worker := .holding key kind }, [.delivered key kind])
    | [] => if s.stopping then some ({ s with phase := .stopped, worker := .finished }, []) else none

/-- The outcome of an attempt: a failure is final. -/
def outcome (result : Result) : Outcome :=
  match result.error? with
  | none => .success
  | some error => .failureFinal error

/-- Adds the record of an attempt. -/
def recordAttempt (s : Serial) (a : Attempt) (duration : Span) (outcome : Outcome) : Change :=
  let r := a.record (Uuid.ofAttempt s.recordCount) duration outcome
  ({ s with ledger := s.ledger.record r, recordCount := s.recordCount + 1 }, [.recorded r])

/-- The worker moves on, unless it runs the handler or finds nothing to do. -/
def work (clocks : Clocks) (s : Serial) : Option Change :=
  match s.worker with
  | .asking => s.ask
  | .holding key kind =>
    let attempt : Attempt :=
      { key, trigger := kind, retryCount := 0, startedAt := clocks.wall, started := clocks.now }
    some ({ s with worker := .handling attempt }, [.began key])
  | .settled a duration outcome =>
    let (s, notices) := s.recordAttempt a duration outcome
    some ({ s with worker := .asking }, notices)
  | .absent | .handling _ | .finished => none

/-- Takes one step, if it is possible. -/
def act (clocks : Clocks) (s : Serial) : Action → Option Change
  | .trigger key kind =>
    let (accepted, s) := s.trigger key kind
    some (s, [if accepted then .accepted key kind else .refused key])
  | .run => if s.phase = .idle then some ({ s with phase := .running, worker := .asking }, []) else none
  | .stop => some ({ s with stopRequested := true }, [])
  | .work => s.work clocks
  | .finish result =>
    match s.worker with
    | .handling a => some ({ s with worker := .settled a (a.elapsed clocks.now) (outcome result) }, [])
    | _ => none

end Serial

end ControlLoop
