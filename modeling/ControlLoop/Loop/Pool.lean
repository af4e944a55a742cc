import ControlLoop.Loop.Handler
import ControlLoop.Loop.Phase
import ControlLoop.Queue.Basic
import ControlLoop.Settings.Backoff
import ControlLoop.Record.Ledger

/-!
# The pool

A pool is a `WorkqueueSyncer`: workers take keys from a queue and run a handler on each. A key that
fails is put in again after a delay until its failures exceed a limit. What set a delivery off is
kept in a table beside the queue (`triggers`), and the failures of a key in another (`retries`). A
supervisor, the task that `run` starts, ends the pool: it tells the resync to end, shuts the queue,
waits for the workers to drain it, and closes the accounts of the keys whose retries were cancelled.

This module holds the state of a pool. Its parts (workers, resync, supervisor) each stand at some
stage; `Pool.act` says which single steps lead from stage to stage, and everything that several
parts do at once is an interleaving of such steps.
-/

namespace ControlLoop

namespace Pool

/-- When a resync ticks: what `interval_at` is called with, where the moment of the first tick is
counted from the start of the pool. -/
structure Rhythm where
  /-- how long it takes until the first tick -/
  first : Span
  /-- how long it takes from one tick to the next -/
  period : Span

/-- The rhythm of a resync that ticks for the first time when its period has passed. -/
def Rhythm.every (period : Span) : Rhythm := ⟨period, period⟩

/-- What a pool is made with. -/
structure Setup where
  /-- how many workers it has -/
  workers : Nat
  /-- how many failures of a key it forgives; a `SyncerConfig` holds a number of 32 bits -/
  retryLimit : Nat
  /-- how long a failed key waits -/
  backoff : Backoff
  /-- when all keys of the source are triggered, if there is a source -/
  resync : Option Rhythm

/-- The account of a key that has failed, a `RetryState`. There its failures are counted in 32 bits,
and here without a bound. The two agree for every limit below `2 ^ 32 - 1`, since an account is
closed as soon as its failures exceed the limit; only a pool that forgives `2 ^ 32 - 1` failures
could count beyond what 32 bits hold. -/
structure Account where
  /-- its failures since its last success -/
  failures : Nat
  /-- the error of the last one -/
  lastError : String
  deriving DecidableEq

/-- Where a worker stands. -/
inductive Stage where
  /-- it asks the queue for a key -/
  | asking
  /-- it has taken a key -/
  | holding (key : Key) (kind : Trigger)
  /-- it runs the handler -/
  | handling (attempt : Attempt)
  /-- the handler failed and the failure has been counted -/
  | counting (attempt : Attempt) (duration : Span) (error : String) (failures : Nat)
  /-- what set the attempt off has been kept for the retry -/
  | retrying (attempt : Attempt) (duration : Span) (error : String) (failures : Nat)
  /-- the outcome is known -/
  | settled (attempt : Attempt) (duration : Span) (outcome : Outcome)
  /-- the outcome is recorded -/
  | releasing (key : Key)
  /-- it has found the queue shut and empty -/
  | exited
  deriving DecidableEq

namespace Stage

/-- The key that a worker holds. -/
def key? : Stage → Option Key
  | asking | exited => none
  | holding key _ | releasing key => some key
  | handling a | counting a .. | retrying a .. | settled a .. => some a.key

end Stage

/-- Where the resync stands. -/
inductive Resync where
  /-- there is none -/
  | absent
  /-- it takes all keys of the source at the next moment; of those that it has taken some are left
  to be put in -/
  | ticking (next : Moment) (left : List Key)
  /-- it has ended -/
  | ended
  deriving DecidableEq

/-- Where the supervisor stands. -/
inductive Supervisor where
  /-- the pool does not run yet -/
  | absent
  /-- it waits for the signal to stop -/
  | listening
  /-- it has told the resync to end and waits for it -/
  | endingResync
  /-- it has shut the queue; some retries were cancelled -/
  | draining (cancelled : List Key)
  /-- all accounts are closed and no kinds are kept -/
  | closing
  /-- the pool is stopped -/
  | finished
  deriving DecidableEq

end Pool

/-- A pool of workers. -/
structure Pool where
  /-- the keys -/
  queue : Queue := {}
  /-- the accounts of the keys that have failed since their last success -/
  accounts : Table Pool.Account := ∅
  /-- what set off the next delivery of each key -/
  kinds : Table Trigger := ∅
  /-- the newest records -/
  ledger : Ledger
  /-- how many records have been made -/
  recordCount : Nat := 0
  /-- how far the pool has come -/
  phase : Phase := .idle
  /-- has the signal to stop been given? -/
  stopRequested : Bool := false
  /-- the workers -/
  workers : List Pool.Stage := []
  /-- the resync -/
  resync : Pool.Resync := .absent
  /-- the supervisor -/
  supervisor : Pool.Supervisor := .absent

namespace Pool

/-- A pool that has not run, with room for some records. -/
def fresh (ledgerCapacity : Nat) : Pool := { ledger := Ledger.empty ledgerCapacity }

/-- The failures of a key since its last success. -/
def retryCount (p : Pool) (key : Key) : Nat :=
  match p.accounts[key]? with
  | some account => account.failures
  | none => 0

/-- Adds a record to the ledger. -/
def record (p : Pool) (r : Uuid → Record) : Pool :=
  { p with ledger := p.ledger.record (r (Uuid.ofAttempt p.recordCount)), recordCount := p.recordCount + 1 }

/-- What sets a delivery off if two triggers do: a manual one outweighs. -/
def outweigh (kind : Trigger) : Option Trigger → Trigger
  | none => kind
  | some old => if kind = .manual then .manual else old

/-- Puts a key into the queue and notes what set that off; false if the queue is shut. -/
def enqueue (p : Pool) (key : Key) (kind : Trigger) : Bool × Pool :=
  match p.queue.addWith key (fun kinds => kinds.insert key (outweigh kind kinds[key]?)) p.kinds with
  | .ok (kinds, queue) => (true, { p with kinds, queue })
  | .error _ => (false, p)

/-- Asks for a key to be handled; false if the pool takes no more. -/
def trigger (p : Pool) (key : Key) (kind : Trigger) : Bool × Pool :=
  if p.phase = .stopped then (false, p) else p.enqueue key kind

end Pool

end ControlLoop
