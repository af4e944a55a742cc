import ControlLoop.Bench.Rig
import ControlLoop.Loop.PoolStep

/-!
# A pool on the bench

The tasks that a `WorkqueueSyncer` starts: its workers, the timers of its queue, its resync and the
supervisor that waits for all of them. Which step a task takes is up to `Pool.act`.
-/

namespace ControlLoop

namespace PoolBench

/-- The tasks of a pool. -/
inductive Task where
  /-- a worker -/
  | worker (i : Nat)
  /-- a timer of the queue -/
  | timer (key : Key) (deadline : Moment)
  /-- the resync -/
  | resync
  /-- the supervisor -/
  | supervisor
  deriving DecidableEq

/-- A pool with what surrounds it. -/
structure State (ω : Type) where
  /-- what the pool is made with -/
  setup : Pool.Setup
  /-- the handler that it runs -/
  handler : Handler ω
  /-- the keys that a resync triggers -/
  source : ω → List Key
  /-- the pool -/
  pool : Pool
  /-- what surrounds it -/
  flight : Flight ω

/-- The tasks that a step of the pool starts: the timers that it sets. -/
def started (notices : List Notice) : List Task :=
  notices.filterMap fun
    | .delayed key deadline => some (.timer key deadline)
    | _ => none

/-- How a pool is driven. -/
abbrev rig (ω : Type) : Rig (State ω) Pool Pool.Action Task ω where
  loop s := s.pool
  flight s := s.flight
  set s pool flight := { s with pool, flight }
  handler s := s.handler
  act s clocks a := s.pool.act s.setup clocks a
  toRun := .run
  toStop := .stop
  toTrigger := .trigger
  toWork := .work
  toFinish := .finish
  crew s := (List.range s.setup.workers).map .worker ++ [.resync, .supervisor]
  started := started
  flight_set _ _ _ := rfl

namespace State

variable {ω : Type}

/-- A step of the resync: it ends if it was told to, puts in the next of its keys, or takes the keys
of the source if the moment has come. -/
def resync (now : Moment) (s : State ω) : Turn (State ω) Task :=
  match (rig ω).act? now s .endResync with
  | some (s, _) => ⟨s, .wait, []⟩
  | none =>
    match s.pool.resync with
    | .ticking _ (key :: _) => (rig ω).actThen now s (.put key) .goOn
    | .ticking due [] =>
      if due ≤ now then (rig ω).actThen now s (.tick (s.source s.flight.world)) .goOn else ⟨s, .sleepUntil due, []⟩
    | .absent | .ended => ⟨s, .wait, []⟩

/-- A step of a task. -/
def step (now : Moment) (task : Task) (s : State ω) : Turn (State ω) Task :=
  match task with
  | .worker i =>
    match s.pool.workers[i]? with
    | some (.handling _) => (rig ω).handle now i s
    | _ => (rig ω).work now i s
  | .timer key deadline =>
    if now < deadline then ⟨s, .sleepUntil deadline, []⟩ else (rig ω).actThen now s (.fire key deadline) .wait
  | .resync => s.resync now
  | .supervisor => (rig ω).actThen now s .supervise .goOn

/-- The tasks that can go on: workers that the bell has called, and a resync or a supervisor with
nothing left to wait for. -/
def awake (now : Moment) (s : State ω) : List Task :=
  s.pool.queue.bell.called.map .worker ++
    (if ((rig ω).act? now s .endResync).isSome then [.resync] else []) ++
    (if ((rig ω).act? now s .supervise).isSome then [.supervisor] else [])

/-- Is the pool stopped? -/
def isFinished (s : State ω) : Bool := s.pool.supervisor = .finished

end State

/-- The tasks of a pool change it. -/
def machine (ω : Type) : Machine (State ω) Task := ⟨State.step, State.awake⟩

end PoolBench

/-- A pool on the bench. -/
abbrev PoolBench (ω : Type) := Bench (PoolBench.machine ω)

namespace PoolBench

variable {ω : Type}

/-- The ticks of a resync on the bench are never further apart than the longest sleep, though a pool
itself waits for the whole of its period (`Pool.nextTick`). The first tick may come later, since it
is waited for as a moment. -/
def paced (rhythm : Pool.Rhythm) : Pool.Rhythm := { rhythm with period := min rhythm.period Bench.longestSleep }

/-- A pool that has not run. -/
def create (setup : Pool.Setup) (handler : Handler ω) (source : ω → List Key) (ledgerCapacity : Nat) (world : ω)
    (wall : Timestamp) : PoolBench ω :=
  { state :=
      { setup := { setup with resync := setup.resync.map paced }
        handler
        source
        pool := Pool.fresh ledgerCapacity
        flight := { world, wall } } }

/-- The pool. -/
def pool (b : PoolBench ω) : Pool := b.state.pool

/-- What surrounds the pool. -/
def flight (b : PoolBench ω) : Flight ω := b.state.flight

/-- Gives the signal to stop. -/
def stop (b : PoolBench ω) : PoolBench ω := (rig ω).stop b

/-- Runs the pool; only the first time counts. -/
def run (b : PoolBench ω) : PoolBench ω := (rig ω).run b

/-- Triggers a key; false if the pool takes no more. -/
def trigger (b : PoolBench ω) (key : Key) (kind : Trigger) : Bool × PoolBench ω := (rig ω).trigger b key kind

/-- Lets time pass until the pool is stopped, or for a span; says whether it is stopped. -/
def awaitEnd (b : PoolBench ω) (span : Span) : Bool × PoolBench ω :=
  let b := b.await span State.isFinished
  (b.state.isFinished, b)

/-- Changes what surrounds the pool. -/
def modifyFlight (b : PoolBench ω) (f : Flight ω → Flight ω) : PoolBench ω := (rig ω).modifyFlight b f

/-- Changes the queue of the pool behind its back. -/
def setQueue (b : PoolBench ω) (queue : Queue) : PoolBench ω :=
  let tasks := started (Pool.delayedNotices b.state.pool.queue queue)
  b.change { b.state with pool := { b.state.pool with queue } } tasks

end PoolBench

end ControlLoop
