import ControlLoop.Bench.Basic
import ControlLoop.Queue.Basic

/-!
# A queue on the bench

A `WorkQueue` by itself. Its tasks are its timers and those who wait for keys. Whoever waits takes
one key, or learns that there will be none, and leaves; it never says that it is done.
-/

namespace ControlLoop

namespace QueueBench

/-- The tasks around a queue. -/
inductive Task where
  /-- one who waits for a key -/
  | waiter (ticket : Ticket)
  /-- a timer -/
  | timer (key : Key) (deadline : Moment)
  deriving DecidableEq

/-- A queue, and those who waited for it. -/
structure State where
  /-- the queue -/
  queue : Queue := {}
  /-- how many tickets have been given out -/
  tickets : Nat := 0
  /-- who has left with which key, if any, the last one first -/
  served : List (Ticket × Option Key) := []

namespace State

/-- A step of a task. -/
def step (now : Moment) (task : Task) (s : State) : Turn State Task :=
  match task with
  | .waiter ticket =>
    if ticket ∈ s.queue.bell.waiting then ⟨s, .wait, []⟩
    else
      match s.queue.get ticket with
      | (.taken key _, queue) => ⟨{ s with queue, served := (ticket, some key) :: s.served }, .wait, []⟩
      | (.closed, queue) => ⟨{ s with queue, served := (ticket, none) :: s.served }, .wait, []⟩
      | (.waiting, queue) => ⟨{ s with queue }, .wait, []⟩
  | .timer key deadline =>
    if now < deadline then ⟨s, .sleepUntil deadline, []⟩
    else ⟨{ s with queue := s.queue.fire key deadline }, .wait, []⟩

/-- The tasks that can go on: those whose tickets the bell has called. -/
def awake (_ : Moment) (s : State) : List Task := s.queue.bell.called.map .waiter

/-- The timers that a queue has and an earlier state of it had not. -/
def newTimers (old new : Queue) : List Task :=
  (new.timers.drop old.timers.length).map fun (key, deadline) => .timer key deadline

end State

/-- The tasks around a queue change it. -/
def machine : Machine State Task := ⟨State.step, State.awake⟩

end QueueBench

/-- A queue on the bench. -/
abbrev QueueBench := Bench QueueBench.machine

namespace QueueBench

/-- A queue without keys. -/
def create : QueueBench := { state := {} }

/-- The queue. -/
def queue (b : QueueBench) : Queue := b.state.queue

/-- Puts another queue in place of the queue. -/
def setQueue (b : QueueBench) (queue : Queue) : QueueBench :=
  b.change { b.state with queue } (State.newTimers b.state.queue queue)

/-- Asks for a key without waiting; `take` says something along with the key. -/
def poll {ρ : Type} (b : QueueBench) (take : Key → ρ) : Queue.Reply ρ × QueueBench :=
  let ticket := b.state.tickets
  let (reply, _, queue) := b.state.queue.getWith ticket (fun key s => (take key, s)) ()
  -- whoever would have to wait leaves instead
  let queue := match reply with
    | .waiting => queue.abandon ticket
    | _ => queue
  (reply, b.change { b.state with queue, tickets := ticket + 1 } [])

/-- Somebody comes and waits for a key; returns the ticket. -/
def wait (b : QueueBench) : Ticket × QueueBench :=
  let ticket := b.state.tickets
  (ticket, b.change { b.state with tickets := ticket + 1 } [.waiter ticket])

end QueueBench

end ControlLoop
