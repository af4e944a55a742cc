import ControlLoop.Bench.Rig
import ControlLoop.Loop.Serial

/-!
# A serial loop on the bench

The only task of a `OneWorkerSyncer` is its worker. Which step it takes is up to `Serial.act`.
-/

namespace ControlLoop

namespace SerialBench

/-- A loop with what surrounds it. -/
structure State (ω : Type) where
  /-- the handler that it runs -/
  handler : Handler ω
  /-- the loop -/
  serial : Serial
  /-- what surrounds it -/
  flight : Flight ω

/-- How a serial loop is driven. -/
abbrev rig (ω : Type) : Rig (State ω) Serial Serial.Action Unit ω where
  loop s := s.serial
  flight s := s.flight
  set s serial flight := { s with serial, flight }
  handler s := s.handler
  act s clocks a := s.serial.act clocks a
  toRun := .run
  toStop := .stop
  toTrigger := .trigger
  toWork _ := .work
  toFinish _ := .finish
  crew _ := [()]
  started _ := []
  flight_set _ _ _ := rfl

namespace State

variable {ω : Type}

/-- A step of the worker. -/
def step (now : Moment) (_ : Unit) (s : State ω) : Turn (State ω) Unit :=
  match s.serial.worker with
  | .handling _ => (rig ω).handle now 0 s
  | _ => (rig ω).work now 0 s

/-- The worker can go on if it looks for triggers and finds one, or the signal to stop. -/
def awake (now : Moment) (s : State ω) : List Unit :=
  match s.serial.worker with
  | .asking => if ((rig ω).act? now s .work).isSome then [()] else []
  | _ => []

/-- Is the loop stopped? -/
def isFinished (s : State ω) : Bool := s.serial.worker = .finished

end State

/-- The worker of a loop changes it. -/
def machine (ω : Type) : Machine (State ω) Unit := ⟨State.step, State.awake⟩

end SerialBench

/-- A serial loop on the bench. -/
abbrev SerialBench (ω : Type) := Bench (SerialBench.machine ω)

namespace SerialBench

variable {ω : Type}

/-- A loop that has not run. -/
def create (handler : Handler ω) (ledgerCapacity : Nat) (world : ω) (wall : Timestamp) : SerialBench ω :=
  { state := { handler, serial := Serial.fresh ledgerCapacity, flight := { world, wall } } }

/-- The loop. -/
def serial (b : SerialBench ω) : Serial := b.state.serial

/-- What surrounds the loop. -/
def flight (b : SerialBench ω) : Flight ω := b.state.flight

/-- Gives the signal to stop. -/
def stop (b : SerialBench ω) : SerialBench ω := (rig ω).stop b

/-- Runs the loop; only the first time counts. -/
def run (b : SerialBench ω) : SerialBench ω := (rig ω).run b

/-- Triggers a key; false if the loop takes no more. -/
def trigger (b : SerialBench ω) (key : Key) (kind : Trigger) : Bool × SerialBench ω := (rig ω).trigger b key kind

/-- Lets time pass until the loop is stopped, or for a span; says whether it is stopped. -/
def awaitEnd (b : SerialBench ω) (span : Span) : Bool × SerialBench ω :=
  let b := b.await span State.isFinished
  (b.state.isFinished, b)

/-- Changes what surrounds the loop. -/
def modifyFlight (b : SerialBench ω) (f : Flight ω → Flight ω) : SerialBench ω := (rig ω).modifyFlight b f

end SerialBench

end ControlLoop
