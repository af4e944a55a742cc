import ControlLoop.Loop.Notice
import ControlLoop.Loop.Pool

/-!
# The steps of a pool

`Pool.act` takes one step of a `WorkqueueSyncer`, if the step is possible: somebody triggers a key,
a worker moves on to its next stage, a handler ends, a timer goes off, the resync ticks or puts in a
key, the supervisor moves on. Each step is what happens under one lock, so every behaviour of a
pool, on one processor or several, is a sequence of such steps. A step comes with the notices that
an onlooker would take down.

A worker goes through `worker`, `process` and `handle_failure`, where one lock after the other is
taken; the resync takes its keys in one step and the lock of the queue for each of them in another.
-/

namespace ControlLoop.Pool

/-- A step of a pool. -/
inductive Action where
  /-- somebody triggers a key -/
  | trigger (key : Key) (kind : Trigger)
  /-- the pool starts to run -/
  | run
  /-- the signal to stop is given -/
  | stop
  /-- a worker that runs no handler moves on -/
  | work (i : Nat)
  /-- the handler of a worker ends -/
  | finish (i : Nat) (result : Result)
  /-- a timer of the queue goes off -/
  | fire (key : Key) (deadline : Moment)
  /-- the resync finds its moment come and is given the keys of the source -/
  | tick (keys : List Key)
  /-- the resync puts in a key that it was given -/
  | put (key : Key)
  /-- the resync ends, as it was told -/
  | endResync
  /-- the supervisor moves on -/
  | supervise

/-- A pool after a step, and the notices of the step. -/
abbrev Change := Pool × List Notice

/-! ## Workers -/

/-- Moves a worker to another stage. -/
def moveTo (p : Pool) (i : Nat) (stage : Stage) : Pool := { p with workers := p.workers.set i stage }

/-- Adds the record of an attempt. -/
def recordAttempt (p : Pool) (a : Attempt) (duration : Span) (outcome : Outcome) : Change :=
  let r := fun id => a.record id duration outcome
  (p.record r, [.recorded (r (Uuid.ofAttempt p.recordCount))])

/-- A worker asks the queue for a key; what set the delivery off goes with it. -/
def ask (p : Pool) (i : Nat) : Change :=
  let take (key : Key) (kinds : Table Trigger) : Trigger × Table Trigger :=
    (kinds[key]?.getD .auto, kinds.erase key)
  match p.queue.getWith i take p.kinds with
  | (.taken key kind, kinds, queue) =>
    ({ p with kinds, queue }.moveTo i (.holding key kind), [.delivered key kind])
  | (.closed, kinds, queue) => ({ p with kinds, queue }.moveTo i .exited, [])
  | (.waiting, kinds, queue) => ({ p with kinds, queue }, [])

/-- A worker begins to run the handler. -/
def begin (clocks : Clocks) (p : Pool) (i : Nat) (key : Key) (kind : Trigger) : Change :=
  let attempt : Attempt :=
    { key, trigger := kind, retryCount := p.retryCount key, startedAt := clocks.wall, started := clocks.now }
  (p.moveTo i (.handling attempt), [.began key])

/-- Counts a failure of a key. -/
def countFailure (p : Pool) (key : Key) (error : String) : Nat × Pool :=
  let failures := p.retryCount key + 1
  (failures, { p with accounts := p.accounts.insert key ⟨failures, error⟩ })

/-- The handler of a worker ends: a success closes the account of the key, a failure is counted. -/
def finish (clocks : Clocks) (p : Pool) (i : Nat) (a : Attempt) (result : Result) : Pool :=
  let duration := a.elapsed clocks.now
  match result.error? with
  | none => { p with accounts := p.accounts.erase a.key }.moveTo i (.settled a duration .success)
  | some error =>
    let (failures, p) := p.countFailure a.key error
    p.moveTo i (.counting a duration error failures)

/-- After a failure the key is dropped if it has failed too often; else what set the attempt off is
kept for the retry, unless something else has set one off already. -/
def judge (setup : Setup) (p : Pool) (i : Nat) (a : Attempt) (duration : Span) (error : String)
    (failures : Nat) : Pool :=
  if setup.retryLimit < failures then
    -- the record is still to be written; a new trigger starts a new account
    { p with accounts := p.accounts.erase a.key }.moveTo i (.settled a duration (.failureFinal error))
  else
    { p with kinds := p.kinds.insertIfNew a.key a.trigger }.moveTo i (.retrying a duration error failures)

/-- The timers that a queue has and an earlier state of it had not, as notices. -/
def delayedNotices (old new : Queue) : List Notice :=
  (new.timers.drop old.timers.length).map fun (key, deadline) => .delayed key deadline

/-- The key is put in again after a delay; if the queue is shut it is dropped. -/
def retry (setup : Setup) (clocks : Clocks) (p : Pool) (i : Nat) (a : Attempt) (duration : Span) (error : String)
    (failures : Nat) : Change :=
  match p.queue.addAfter? clocks.now a.key (setup.backoff.delay failures) with
  | .ok queue =>
    ({ p with queue }.moveTo i (.settled a duration (.failure error)), delayedNotices p.queue queue)
  | .error _ =>
    ({ p with accounts := p.accounts.erase a.key }.moveTo i (.settled a duration (.failureFinal error)), [])

/-- A worker that runs no handler moves on to its next stage; one that waits for the bell cannot. -/
def work (setup : Setup) (clocks : Clocks) (p : Pool) (i : Nat) : Option Change :=
  match p.workers[i]? with
  | some .asking => if i ∈ p.queue.bell.waiting then none else some (p.ask i)
  | some (.holding key kind) => some (p.begin clocks i key kind)
  | some (.counting a duration error failures) => some (p.judge setup i a duration error failures, [])
  | some (.retrying a duration error failures) => some (p.retry setup clocks i a duration error failures)
  | some (.settled a duration outcome) =>
    let (p, notices) := p.recordAttempt a duration outcome
    some (p.moveTo i (.releasing a.key), notices)
  | some (.releasing key) => some ({ p with queue := p.queue.done key }.moveTo i .asking, [])
  | some (.handling _) | some .exited | none => none

/-! ## Resync -/

/-- How late a tick may be and still leave the rhythm of the resync alone. -/
def tolerance : Nat := 5 * 10 ^ 6

/-- The moment after a tick that was due at `due`: the period counts from there, or from the tick if
that was late. -/
def nextTick (now due : Moment) (period : Span) : Moment :=
  if due + tolerance < now then now + period.nanos else due + period.nanos

/-- The resync ticks: it takes all keys of the source. -/
def tick (setup : Setup) (clocks : Clocks) (p : Pool) (keys : List Key) : Option Change :=
  match p.resync, setup.resync with
  | .ticking due [], some rhythm =>
    if due ≤ clocks.now then
      some ({ p with resync := .ticking (nextTick clocks.now due rhythm.period) keys }, [])
    else none
  | _, _ => none

/-- The resync puts in the first of the keys that are left. Between two keys anything else may
happen, but it neither ticks again nor ends before all of them are put in. -/
def put (p : Pool) (key : Key) : Option Change :=
  match p.resync with
  | .ticking next (first :: left) =>
    if first = key then
      let (accepted, p) := p.enqueue key .auto
      some ({ p with resync := .ticking next left }, if accepted then [.accepted key .auto] else [])
    else none
  | _ => none

/-! ## The supervisor -/

/-- Closes the account of a key whose retry was cancelled, with a record; a key without an account
has been handled since. -/
def abandon (clocks : Clocks) (p : Pool) (key : Key) : Change :=
  match p.accounts[key]? with
  | none => (p, [])
  | some account =>
    let a : Attempt :=
      { key, trigger := p.kinds[key]?.getD .auto, retryCount := account.failures, startedAt := clocks.wall,
        started := clocks.now }
    { p with accounts := p.accounts.erase key, kinds := p.kinds.erase key }.recordAttempt a Span.zero
      (.failureFinal account.lastError)

/-- The supervisor moves on, unless it has to wait. -/
def supervise (clocks : Clocks) (p : Pool) : Option Change :=
  match p.supervisor with
  | .listening => if p.stopRequested then some ({ p with supervisor := .endingResync }, []) else none
  | .endingResync =>
    match p.resync with
    | .ticking .. => none
    | .absent | .ended =>
      -- from here on nothing is put in but what comes back from the workers
      let (cancelled, queue) := p.queue.shutDown
      some ({ p with queue, supervisor := .draining cancelled }, [])
  | .draining cancelled =>
    -- the workers first: a cancelled key may still be waiting in the queue, and settle there
    if p.workers.all (· = .exited) then
      match cancelled with
      | key :: cancelled =>
        let (p, notices) := p.abandon clocks key
        some ({ p with supervisor := .draining cancelled }, notices)
      | [] => some ({ p with kinds := ∅, supervisor := .closing }, [])
    else none
  | .closing => some ({ p with phase := .stopped, supervisor := .finished }, [])
  | .absent | .finished => none

/-! ## All steps -/

/-- Starts the workers, the resync if there is one, and the supervisor. -/
def start (setup : Setup) (clocks : Clocks) (p : Pool) : Pool :=
  let resync := match setup.resync with
    | some rhythm => Resync.ticking (clocks.now + rhythm.first.nanos) []
    | none => .absent
  { p with phase := .running, workers := List.replicate setup.workers .asking, resync, supervisor := .listening }

/-- Takes one step, if it is possible. -/
def act (setup : Setup) (clocks : Clocks) (p : Pool) : Action → Option Change
  | .trigger key kind =>
    let (accepted, p) := p.trigger key kind
    some (p, [if accepted then .accepted key kind else .refused key])
  | .run => if p.phase = .idle then some (p.start setup clocks, []) else none
  | .stop => some ({ p with stopRequested := true }, [])
  | .work i => p.work setup clocks i
  | .finish i result =>
    match p.workers[i]? with
    | some (.handling a) => some (p.finish clocks i a result, [])
    | _ => none
  | .fire key deadline =>
    if (key, deadline) ∈ p.queue.timers ∧ deadline ≤ clocks.now then
      let effective := p.queue.delayed[key]? = some deadline ∧ ¬p.queue.closed
      some ({ p with queue := p.queue.fire key deadline }, if effective then [.released key] else [])
    else none
  | .tick keys => p.tick setup clocks keys
  | .put key => p.put key
  | .endResync =>
    match p.resync, p.supervisor with
    | .ticking _ [], .endingResync => some ({ p with resync := .ended }, [])
    | _, _ => none
  | .supervise => p.supervise clocks

end ControlLoop.Pool
