import ControlLoop.Bench.Rig
import ControlLoop.Proofs.Bench.Turns

/-!
# What is done to a loop on the bench

All that a bench does to a loop goes through `Rig.act?`. So what a step of the loop leaves behind
(`act?_of_act` and what follows from it), and that nothing is struck from the log (`log_actThen`,
`log_handle`, `log_work`, `log_ask`), is shown once, for the pool and for the serial loop.

A client that asks something of the loop may find that anything happens before it acts again:
`Rig.ask` changes the loop and lets no task run, and `Bench.Visit` takes it from there. The bench
itself lets all tasks run after each request (`Rig.serve`), and while a client sleeps. Both is one
of the things that may happen (`leads_of_serve`, `Bench.leads_of_advance`), and so is all that a
client comes to who runs its errands at the bench (`leads_of_carryOut`).
-/

namespace ControlLoop

namespace Flight

variable {ω : Type}

theorem log_move (f : Flight ω) (now : Moment) (i : Nat) : (f.move now i).2.log = f.log := by
  simp only [move]
  cases (f.plan i).deeds with
  | nil => rfl
  | cons deed deeds => cases deed <;> rfl

theorem log_suffix_note (f : Flight ω) (now : Moment) (notices : List Notice) : f.log <:+ (f.note now notices).log :=
  List.suffix_append ..

/-- A handler that is called takes nothing down. -/
theorem log_callIfBegun (f : Flight ω) (handler : Handler ω) (i : Nat) (notices : List Notice) :
    (f.callIfBegun handler i notices).log = f.log := by
  unfold callIfBegun
  induction notices generalizing f with
  | nil => rfl
  | cons n notices ih =>
    rw [List.foldl_cons, ih]
    cases n <;> rfl

end Flight

namespace Rig

variable {σ ℓ α τ ω : Type} {r : Rig σ ℓ α τ ω} {s : σ} {now : Moment} {a : α} {loop : ℓ} {notices : List Notice}

/-! ## A step -/

theorem act?_of_act (h : r.act s ((r.flight s).clocks now) a = some (loop, notices)) :
    r.act? now s a = some (r.set s loop ((r.flight s).note now notices), notices) := by
  rw [act?, h]
  rfl

/-- The bench adds no steps to those of the loop. -/
theorem act?_of_none (h : r.act s ((r.flight s).clocks now) a = none) : r.act? now s a = none := by
  rw [act?, h]
  rfl

theorem actThen_of_act {next : Next} (h : r.act s ((r.flight s).clocks now) a = some (loop, notices)) :
    r.actThen now s a next = ⟨r.set s loop ((r.flight s).note now notices), next, r.started notices⟩ := by
  rw [actThen, act?_of_act h]

theorem actThen_of_none {next : Next} (h : r.act s ((r.flight s).clocks now) a = none) :
    r.actThen now s a next = ⟨s, .wait, []⟩ := by
  rw [actThen, act?_of_none h]

/-- A worker whose step is possible takes it, and the handler is called if it begins. -/
theorem work_of_act {i : Nat} (h : r.act s ((r.flight s).clocks now) (r.toWork i) = some (loop, notices)) :
    r.work now i s =
      ⟨r.setFlight (r.set s loop ((r.flight s).note now notices))
          ((r.flight (r.set s loop ((r.flight s).note now notices))).callIfBegun
            (r.handler (r.set s loop ((r.flight s).note now notices))) i notices),
        .goOn, r.started notices⟩ := by
  rw [work, act?_of_act h]

theorem work_of_none {i : Nat} (h : r.act s ((r.flight s).clocks now) (r.toWork i) = none) :
    r.work now i s = ⟨s, .wait, []⟩ := by
  rw [work, act?_of_none h]

/-! ## From outside -/

variable [DecidableEq τ] {m : Machine σ τ} {b : Bench m} {tasks : List τ} {errands : List Errand}

/-- A step of the loop from outside, after which nothing else happens yet. -/
def request (r : Rig σ ℓ α τ ω) (b : Bench m) (a : α) (tasks : List τ) : Bench m :=
  match r.act? b.now b.state a with
  | some (s, notices) => b.modify s (tasks ++ r.started notices)
  | none => b.modify b.state []

/-- What a request does to the loop. -/
def ask (r : Rig σ ℓ α τ ω) (b : Bench m) : Request → Bench m
  | .run => r.request b r.toRun (r.crew b.state)
  | .stop => r.request b r.toStop []
  | .trigger key kind => r.request b (r.toTrigger key kind) []
  | .advanceClock span =>
    b.modify (r.setFlight b.state { r.flight b.state with wall := (r.flight b.state).wall.advance span }) []

/-- What a client does to the bench; the tasks run after that. -/
def serve (r : Rig σ ℓ α τ ω) (b : Bench m) : Request → Bench m
  | .run => r.run b
  | .stop => r.stop b
  | .trigger key kind => (r.trigger b key kind).2
  | .advanceClock span => r.modifyFlight b fun f => { f with wall := f.wall.advance span }

/-- A request that is possible changes the loop, and the tasks that it starts are in the line. -/
theorem request_of_act (h : r.act b.state ((r.flight b.state).clocks b.now) a = some (loop, notices)) :
    r.request b a tasks = b.modify (r.set b.state loop ((r.flight b.state).note b.now notices))
      (tasks ++ r.started notices) := by
  rw [Rig.request, act?_of_act h]

theorem request_of_none (h : r.act b.state ((r.flight b.state).clocks b.now) a = none) :
    r.request b a tasks = b.modify b.state [] := by
  rw [Rig.request, act?_of_none h]

/-- `Rig.perform` is a step of the loop, after which the bench lets the tasks run. -/
theorem perform_eq (b : Bench m) (a : α) (tasks : List τ) :
    (r.perform b a tasks).2 = (r.request b a tasks).settle Bench.maxSteps := by
  rw [perform, Rig.request]
  cases r.act? b.now b.state a <;> rfl

theorem serve_eq (b : Bench m) (request : Request) : r.serve b request = (r.ask b request).settle Bench.maxSteps := by
  cases request with
  | run | stop | trigger => exact perform_eq b _ _
  | advanceClock => rfl

/-- What a client does to the bench it asks of the loop, and then waits until the tasks have come to
rest. So what the bench makes of it is one of the things that may happen. -/
theorem leads_of_serve {request : Request} (hr : (r.serve b request).ready = []) :
    Bench.Visit.Leads r.ask ⟨b, none, .ask request :: .wait .zero :: errands⟩ ⟨r.serve b request, none, errands⟩ := by
  rw [serve_eq] at hr ⊢
  exact .head .ask (Bench.leads_of_rest hr)

/-! ## Errands at the bench -/

/-- What a client comes to who runs its errands at the bench: requests are served at once, and it
sleeps to let time pass. -/
def carryOut (r : Rig σ ℓ α τ ω) : Bench m → List Errand → Bench m
  | b, [] => b
  | b, .ask request :: errands => r.carryOut (r.serve b request) errands
  | b, .wait span :: errands => r.carryOut (b.advance span) errands

/-- The tasks come to rest after each errand. -/
def CalmAfter (r : Rig σ ℓ α τ ω) : Bench m → List Errand → Prop
  | _, [] => True
  | b, .ask request :: errands => (r.serve b request).ready = [] ∧ r.CalmAfter (r.serve b request) errands
  | b, .wait span :: errands =>
    (∃ jumps, (Bench.pass? Bench.maxSteps (b.now + (min span Bench.longestSleep).nanos) jumps b).isSome) ∧
      r.CalmAfter (b.advance span) errands

/-- The errands of a client who waits after each request until the tasks have come to rest, and
sleeps as long as one can. -/
def unhurried (errands : List Errand) : List Errand :=
  errands.flatMap fun
    | .ask request => [.ask request, .wait .zero]
    | .wait span => [.wait (min span Bench.longestSleep)]

/-- **What the bench does is one of the things that may happen**: what a client comes to there, a
client who is not in a hurry may come to whatever the order of the tasks. -/
theorem leads_of_carryOut (h : r.CalmAfter b errands) :
    Bench.Visit.Leads r.ask ⟨b, none, unhurried errands⟩ ⟨r.carryOut b errands, none, []⟩ := by
  induction errands generalizing b with
  | nil => exact .refl
  | cons errand errands ih =>
    cases errand with
    | ask request => exact (leads_of_serve h.1).trans (ih h.2)
    | wait span =>
      obtain ⟨⟨jumps, hpass⟩, hrest⟩ := h
      exact (Bench.leads_of_advance hpass).trans (ih hrest)

/-! ## The log grows

Nothing that is done to a loop strikes a notice from its log. So where the whole log is a fair one
each beginning of it is, and a comparison that holds only for fair logs may be made step by step. -/

omit [DecidableEq τ]

theorem log_act? {t : σ} (h : r.act? now s a = some (t, notices)) : (r.flight s).log <:+ (r.flight t).log := by
  obtain ⟨⟨loop, notices'⟩, -, heq⟩ := Option.map_eq_some_iff.mp h
  cases heq
  rw [r.flight_set]
  exact (r.flight s).log_suffix_note now notices

theorem log_actThen (r : Rig σ ℓ α τ ω) (now : Moment) (s : σ) (a : α) (next : Next) :
    (r.flight s).log <:+ (r.flight (r.actThen now s a next).state).log := by
  unfold actThen
  split
  · next hact => exact log_act? hact
  · exact List.suffix_rfl

/-- Nothing is struck from the log while a handler runs. -/
theorem log_handle (r : Rig σ ℓ α τ ω) (now : Moment) (i : Nat) (s : σ) :
    (r.flight s).log <:+ (r.flight (r.handle now i s).state).log := by
  have hlog := (r.flight s).log_move now i
  have hkept : (r.flight (r.setFlight s ((r.flight s).move now i).2)).log = (r.flight s).log := by
    rw [setFlight, r.flight_set, hlog]
  unfold handle
  generalize (r.flight s).move now i = moved at hkept ⊢
  obtain ⟨move, flight⟩ := moved
  rw [← hkept]
  cases move with
  | trigger | finish => exact log_actThen ..
  | sleepUntil | goOn => exact List.suffix_rfl

theorem log_work (r : Rig σ ℓ α τ ω) (now : Moment) (i : Nat) (s : σ) :
    (r.flight s).log <:+ (r.flight (r.work now i s).state).log := by
  unfold work
  split
  · exact List.suffix_rfl
  · next hact =>
    rw [setFlight, r.flight_set, Flight.log_callIfBegun]
    exact log_act? hact

variable [DecidableEq τ]

/-- Nothing is struck from the log by a request. -/
theorem log_ask (r : Rig σ ℓ α τ ω) (b : Bench m) (request : Request) :
    (r.flight b.state).log <:+ (r.flight (r.ask b request).state).log := by
  have hrequest : ∀ a tasks, (r.flight b.state).log <:+ (r.flight (r.request b a tasks).state).log := by
    intro a tasks
    unfold Rig.request
    split
    · next hact => exact log_act? hact
    · exact List.suffix_rfl
  cases request with
  | run | stop | trigger => exact hrequest _ _
  | advanceClock span =>
    have hflight : r.flight (r.ask b (.advanceClock span)).state =
      { r.flight b.state with wall := (r.flight b.state).wall.advance span } := r.flight_set ..
    have hlog : (r.flight (r.ask b (.advanceClock span)).state).log = (r.flight b.state).log := by
      rw [hflight]
    exact hlog ▸ List.suffix_rfl

end Rig

end ControlLoop
