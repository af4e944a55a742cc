import ControlLoop.Bench.Basic
import ControlLoop.Bench.Flight

/-!
# Loops on the bench

Either loop is a `Service`, which is run, triggered and told to stop, and both are put on the bench
in the same way. A `Rig` is the tackle for it: it says how the loop takes a step and what surrounds
it. Every step is taken through `Rig.act?`, which also takes its notices down, so what a worker does
while it runs the handler (`Rig.handle`) and while it does not (`Rig.work`), and what is done to a
loop from outside (`Rig.perform`), is said here once for both.
-/

namespace ControlLoop

/-- How a loop is driven on a bench: the states `σ` hold a loop `ℓ`, which takes steps `α`, and what
surrounds it; the tasks `τ` change them. -/
structure Rig (σ ℓ α τ ω : Type) where
  /-- the loop -/
  loop : σ → ℓ
  /-- what surrounds it -/
  flight : σ → Flight ω
  /-- puts another loop and other surroundings in their place -/
  set : σ → ℓ → Flight ω → σ
  /-- the handler that is run -/
  handler : σ → Handler ω
  /-- takes a step of the loop, if it is possible -/
  act : σ → Clocks → α → Option (ℓ × List Notice)
  /-- the loop starts to run -/
  toRun : α
  /-- the signal to stop is given -/
  toStop : α
  /-- a key is triggered -/
  toTrigger : Key → Trigger → α
  /-- a worker that runs no handler moves on -/
  toWork : Nat → α
  /-- the handler of a worker ends -/
  toFinish : Nat → Result → α
  /-- the tasks that start with the loop -/
  crew : σ → List τ
  /-- the tasks that a step with these notices starts -/
  started : List Notice → List τ
  /-- surroundings are found where they were put -/
  flight_set : ∀ s loop f, flight (set s loop f) = f

namespace Rig

variable {σ ℓ α τ ω : Type} (r : Rig σ ℓ α τ ω)

/-- Changes what surrounds the loop. -/
def setFlight (s : σ) (f : Flight ω) : σ := r.set s (r.loop s) f

/-- Takes a step of the loop and notes it, if it is possible. -/
def act? (now : Moment) (s : σ) (a : α) : Option (σ × List Notice) :=
  (r.act s ((r.flight s).clocks now) a).map fun (loop, notices) =>
    (r.set s loop ((r.flight s).note now notices), notices)

/-! ## Tasks -/

/-- A task takes a step of the loop and then goes on in some way, or waits if the step is
impossible. -/
def actThen (now : Moment) (s : σ) (a : α) (next : Next) : Turn σ τ :=
  match r.act? now s a with
  | some (s, notices) => ⟨s, next, r.started notices⟩
  | none => ⟨s, .wait, []⟩

/-- A step of a worker that runs the handler. -/
def handle (now : Moment) (i : Nat) (s : σ) : Turn σ τ :=
  let (move, flight) := (r.flight s).move now i
  let s := r.setFlight s flight
  match move with
  | .trigger key kind => r.actThen now s (r.toTrigger key kind) .goOn
  | .sleepUntil moment => ⟨s, .sleepUntil moment, []⟩
  | .goOn => ⟨s, .goOn, []⟩
  | .finish result => r.actThen now s (r.toFinish i result) .goOn

/-- A step of a worker that runs no handler; the handler is called as soon as the worker begins to
run it. -/
def work (now : Moment) (i : Nat) (s : σ) : Turn σ τ :=
  match r.act? now s (r.toWork i) with
  | none => ⟨s, .wait, []⟩
  | some (s, notices) =>
    ⟨r.setFlight s ((r.flight s).callIfBegun (r.handler s) i notices), .goOn, r.started notices⟩

/-! ## From outside -/

variable [DecidableEq τ] {m : Machine σ τ}

/-- Takes a step of the loop from outside; the notices of the step tell what came of it. -/
def perform (b : Bench m) (a : α) (tasks : List τ) : List Notice × Bench m :=
  match r.act? b.now b.state a with
  | some (s, notices) => (notices, b.change s (tasks ++ r.started notices))
  | none => ([], b.change b.state [])

/-- Gives the signal to stop. -/
def stop (b : Bench m) : Bench m := (r.perform b r.toStop []).2

/-- Runs the loop; only the first time counts. -/
def run (b : Bench m) : Bench m := (r.perform b r.toRun (r.crew b.state)).2

/-- Triggers a key; false if the loop takes no more. -/
def trigger (b : Bench m) (key : Key) (kind : Trigger) : Bool × Bench m :=
  let (notices, b) := r.perform b (r.toTrigger key kind) []
  (notices.contains (.accepted key kind), b)

/-- Changes what surrounds the loop. -/
def modifyFlight (b : Bench m) (f : Flight ω → Flight ω) : Bench m :=
  b.change (r.setFlight b.state (f (r.flight b.state))) []

end Rig

end ControlLoop
