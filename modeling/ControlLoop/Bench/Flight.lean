import ControlLoop.Bench.Basic
import ControlLoop.Loop.Handler
import ControlLoop.Loop.Notice

/-!
# Handlers on the bench

A `Flight` is what surrounds a loop on a bench: the world of the handler, the wall clock (the
`ManualClock` of a test), the runs of the handler that are in flight, and the notices of an
onlooker.
-/

namespace ControlLoop

/-- What surrounds a loop. -/
structure Flight (ω : Type) where
  /-- the world of the handler -/
  world : ω
  /-- the wall clock -/
  wall : Timestamp
  /-- what is left to do for each worker that runs the handler -/
  plans : List (Nat × Plan) := []
  /-- all notices with their moments, the last one first -/
  log : List (Moment × Notice) := []

/-- What a handler does next. -/
inductive Move where
  /-- it triggers a key -/
  | trigger (key : Key) (kind : Trigger)
  /-- it sleeps until a moment -/
  | sleepUntil (moment : Moment)
  /-- it goes on -/
  | goOn
  /-- it ends -/
  | finish (result : Result)

namespace Flight

variable {ω : Type}

/-- What the clocks show. -/
def clocks (f : Flight ω) (now : Moment) : Clocks := ⟨now, f.wall⟩

/-- Takes notices down. -/
def note (f : Flight ω) (now : Moment) (notices : List Notice) : Flight ω :=
  { f with log := (notices.map fun n => (now, n)).reverse ++ f.log }

/-- The runs of the handler that began, oldest first. -/
def calls (f : Flight ω) : List (Moment × Key) :=
  f.log.reverse.filterMap fun
    | (now, .began key) => some (now, key)
    | _ => none

/-- What is left to do for a worker. -/
def plan (f : Flight ω) (i : Nat) : Plan := (f.plans.lookup i).getD {}

/-- Notes what is left to do for a worker. -/
def setPlan (f : Flight ω) (i : Nat) (plan : Plan) : Flight ω :=
  { f with plans := (i, plan) :: f.plans.filter (·.1 ≠ i) }

/-- The handler is called for a worker. -/
def call (f : Flight ω) (handler : Handler ω) (i : Nat) (key : Key) : Flight ω :=
  let (plan, world) := handler f.world key
  { f with world }.setPlan i plan

/-- The handler is called for a worker if the notices say that it began to run it. -/
def callIfBegun (f : Flight ω) (handler : Handler ω) (i : Nat) (notices : List Notice) : Flight ω :=
  notices.foldl (fun f n => match n with
    | .began key => f.call handler i key
    | _ => f) f

/-- The handler that a worker runs moves on. A sleep of no length is none, and none is longer than
`Bench.longestSleep`. -/
def move (f : Flight ω) (now : Moment) (i : Nat) : Move × Flight ω :=
  let plan := f.plan i
  match plan.deeds with
  | [] => (.finish plan.result, f)
  | deed :: deeds =>
    let f := f.setPlan i { plan with deeds }
    match deed with
    | .trigger key kind => (.trigger key kind, f)
    | .sleep span => (if span.nanos = 0 then .goOn else .sleepUntil (now + (min span Bench.longestSleep).nanos), f)
    | .advanceClock span => (.goOn, { f with wall := f.wall.advance span })

end Flight

end ControlLoop
