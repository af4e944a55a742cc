import ControlLoop.Proofs.Queue.Run

/-!
# What is seen of a queue

Who stands beside a queue sees which keys are put in, by clients and by timers, which keys are
handed out and given back, and for when keys are asked to be put in. These are the events of a run;
all that is promised about the order and the time in which keys are handed out is said in terms of
them.

`Step` tells, once and for all, what an action can make of a sound queue and which events go with
it. What is proved of runs goes through its cases, and not through the operations.
-/

namespace ControlLoop.Queue

/-- What is seen of a queue. -/
inductive Event where
  /-- somebody asks that a key be put in, and for when -/
  | asked (key : Key) (deadline : Moment)
  /-- a client puts a key in -/
  | added (key : Key)
  /-- a timer puts a key in -/
  | released (key : Key)
  /-- a key is handed out -/
  | delivered (key : Key)
  /-- a key is given back, be it handed out or not -/
  | givenBack (key : Key)
  deriving DecidableEq

/-- The key that is put in, by a client or by a timer. -/
def Event.inserted? : Event → Option Key
  | added key | released key => some key
  | asked .. | delivered _ | givenBack _ => none

/-- Events, the newest first. It is what clients and an onlooker could write down themselves: the
queue keeps no such list. -/
abbrev History := List Event

variable {σ : Type} {q r : Queue} {s : σ × Queue} {a : Action σ} {events : History} {key : Key}

/-- What is seen of an action, the newest first. It is seen from the answers that clients get; of a
timer, whether it was the one that counts. -/
def eventsOf (s : σ × Queue) : Action σ → History
  | .add key =>
    match s.2.add? key with
    | .ok _ => [.added key]
    | .error _ => []
  | .addWith key change =>
    match s.2.addWith key change s.1 with
    | .ok _ => [.added key]
    | .error _ => []
  | .addAfter now key delay =>
    match s.2.addAfter? now key delay with
    | .ok _ =>
      -- no delay at all puts the key in at once
      if delay.nanos = 0 then [.added key, .asked key now] else [.asked key (now + delay.nanos)]
    | .error _ => []
  | .fire key deadline => if s.2.delayed[key]? = some deadline ∧ s.2.closed = false then [.released key] else []
  | .getWith ticket take =>
    match (s.2.getWith ticket (fun key beside => ((), take key beside)) s.1).1 with
    | .taken key _ => [.delivered key]
    | .closed | .waiting => []
  | .done key => [.givenBack key]
  | .abandon _ | .shutDown => []

/-- What is seen along a run that begins in `s`, the newest first. -/
def historyFrom : σ × Queue → List (Action σ) → History
  | _, [] => []
  | s, a :: later => historyFrom (act s a) later ++ eventsOf s a

/-- What is seen along a run; at first the queue is empty. -/
def history (beside : σ) (actions : List (Action σ)) : History := historyFrom (beside, {}) actions

/-! ## One action

An action that is refused because the queue is shut changes nothing and shows nothing, whichever of
the three ways to put a key in it is. In a queue that is open each of them is one of the other
steps. -/

/-- Does the action put a key in, at once or after a delay? -/
def Action.isEntry : Action σ → Bool
  | .add _ | .addWith .. | .addAfter .. => true
  | .fire .. | .getWith .. | .abandon _ | .done _ | .shutDown => false

/-- What an action makes of a queue, and what is seen of it. Each case has what was checked for it,
so later proofs never look at `act` again. -/
inductive Step (q : Queue) : Action σ → History → Queue → Prop where
  /-- a queue that is shut takes no key -/
  | refused (a : Action σ) (ha : a.isEntry = true) (hc : q.closed = true) : Step q a [] q
  /-- a key is put in -/
  | added (key : Key) (ho : q.closed = false) : Step q (.add key) [.added key] (q.insert key)
  /-- a key is put in, and something changes with it -/
  | addedWith (key : Key) (change : σ → σ) (ho : q.closed = false) :
    Step q (.addWith key change) [.added key] (q.insert key)
  /-- a key is put in since it has not to wait at all -/
  | addedAtOnce (now : Moment) (key : Key) (delay : Span) (ho : q.closed = false) (hz : delay.nanos = 0) :
    Step q (.addAfter now key delay) [.added key, .asked key now] (q.insert key)
  /-- another delay of the key ends no later -/
  | outrun (now : Moment) (key : Key) (delay : Span) (d : Moment) (ho : q.closed = false) (hpos : 0 < delay.nanos)
    (hd : q.delayed[key]? = some d) (hle : d ≤ now + delay.nanos) :
    Step q (.addAfter now key delay) [.asked key (now + delay.nanos)] q
  /-- a timer is set, and gives way to no other -/
  | timed (now : Moment) (key : Key) (delay : Span) (ho : q.closed = false) (hpos : 0 < delay.nanos)
    (hd : ∀ d, q.delayed[key]? = some d → now + delay.nanos < d) :
    Step q (.addAfter now key delay) [.asked key (now + delay.nanos)] (q.setTimer key (now + delay.nanos))
  /-- the timer that counts goes off -/
  | released (key : Key) (d : Moment) (ho : q.closed = false) (hd : q.delayed[key]? = some d) :
    Step q (.fire key d) [.released key]
      ({ q with timers := q.timers.erase (key, d), delayed := q.delayed.erase key }.insert key)
  /-- a timer that does not count goes off -/
  | lapsed (key : Key) (d : Moment) (hd : q.delayed[key]? ≠ some d) :
    Step q (.fire key d) [] { q with timers := q.timers.erase (key, d) }
  /-- the oldest key is handed out -/
  | handedOut (ticket : Ticket) (take : Key → σ → σ) (key : Key) (rest : List Key) (hp : q.pending = key :: rest) :
    Step q (.getWith ticket take) [.delivered key] (q.handOut ticket key rest)
  /-- there will be no more keys -/
  | toldClosed (ticket : Ticket) (take : Key → σ → σ) (hp : q.pending = []) (hc : q.closed = true) :
    Step q (.getWith ticket take) [] { q with bell := q.bell.arrive ticket }
  /-- there is no key yet -/
  | toldToWait (ticket : Ticket) (take : Key → σ → σ) (hp : q.pending = []) (ho : q.closed = false) :
    Step q (.getWith ticket take) [] { q with bell := (q.bell.arrive ticket).wait ticket }
  /-- one who waits gives up -/
  | left (ticket : Ticket) : Step q (.abandon ticket) [] { q with bell := q.bell.leave ticket }
  /-- a key is given back -/
  | givenBack (key : Key) : Step q (.done key) [.givenBack key] (q.done key)
  /-- the queue is shut -/
  | shut (ho : q.closed = false) :
    Step q .shutDown [] { q with closed := true, delayed := ∅, bell := q.bell.ringAll }
  /-- the queue is shut already -/
  | shutAgain (hc : q.closed = true) : Step q .shutDown [] q

/-- Whoever puts a key into a queue that is shut changes nothing. -/
theorem act_of_closed (h : s.2.closed = true) (ha : a.isEntry = true) : act s a = s := by
  cases a with
  | add key => exact congrArg (Prod.mk s.1) (add_of_closed h key)
  | addWith key change => rw [act, addWith_of_closed h]
  | addAfter now key delay => simp only [act, addAfter, addAfter?_of_closed h]
  | _ => cases ha

/-- Nothing is seen of a key that is put into a queue which is shut. -/
theorem eventsOf_of_closed (h : s.2.closed = true) (ha : a.isEntry = true) : eventsOf s a = [] := by
  cases a with
  | add key => simp only [eventsOf, add?, addWith_of_closed h, Except.map]
  | addWith key change => rw [eventsOf, addWith_of_closed h]
  | addAfter now key delay => rw [eventsOf, addAfter?_of_closed h]
  | _ => cases ha

/-- A delay that begins while the queue is open. -/
theorem step_of_addAfter (ho : s.2.closed = false) (now : Moment) (key : Key) (delay : Span) :
    Step s.2 (.addAfter now key delay : Action σ) (eventsOf s (.addAfter now key delay))
      (act s (.addAfter now key delay)).2 := by
  rw [eventsOf, act, addAfter]
  rcases addAfter?_of_open ho now key delay with ⟨hz, heq⟩ | ⟨hz, ⟨d, hd, hle⟩, heq⟩ | ⟨hz, hd, heq⟩
  · simp only [heq, if_pos hz]
    exact .addedAtOnce now key delay ho hz
  · simp only [heq, if_neg hz]
    exact .outrun now key delay d ho (Nat.pos_of_ne_zero hz) hd hle
  · simp only [heq, if_neg hz]
    exact .timed now key delay ho (Nat.pos_of_ne_zero hz) hd

/-- A key is asked for. -/
theorem step_of_getWith (s : σ × Queue) (ticket : Ticket) (take : Key → σ → σ) :
    Step s.2 (.getWith ticket take) (eventsOf s (.getWith ticket take)) (act s (.getWith ticket take)).2 := by
  rw [eventsOf, act]
  cases hp : s.2.pending with
  | cons key rest =>
    rw [getWith_of_cons hp]
    exact .handedOut ticket take key rest hp
  | nil =>
    cases hc : s.2.closed with
    | true =>
      rw [getWith_of_closed hp hc]
      exact .toldClosed ticket take hp hc
    | false =>
      rw [getWith_of_open hp hc]
      exact .toldToWait ticket take hp hc

/-- Every action is one of the steps. -/
theorem step_of_act (h : s.2.Sound) (a : Action σ) : Step s.2 a (eventsOf s a) (act s a).2 := by
  have hrefused : a.isEntry = true → s.2.closed = true → Step s.2 a (eventsOf s a) (act s a).2 := by
    intro ha hc
    rw [eventsOf_of_closed hc ha, act_of_closed hc ha]
    exact .refused a ha hc
  cases a with
  | add key =>
    cases hc : s.2.closed with
    | true => exact hrefused rfl hc
    | false =>
      simp only [eventsOf, act, add_of_open hc, add?, addWith_of_open hc, Except.map]
      exact .added key hc
  | addWith key change =>
    cases hc : s.2.closed with
    | true => exact hrefused rfl hc
    | false =>
      simp only [eventsOf, act, addWith_of_open hc]
      exact .addedWith key change hc
  | addAfter now key delay =>
    cases hc : s.2.closed with
    | true => exact hrefused rfl hc
    | false => exact step_of_addAfter hc now key delay
  | fire key d =>
    by_cases hd : s.2.delayed[key]? = some d
    · obtain ⟨ho, heq⟩ := h.fire_of_delayed hd
      rw [eventsOf, if_pos ⟨hd, ho⟩, act, heq]
      exact .released key d ho hd
    · rw [eventsOf, if_neg fun hand => hd hand.1, act, fire_of_not_delayed hd]
      exact .lapsed key d hd
  | getWith ticket take => exact step_of_getWith s ticket take
  | abandon ticket => exact .left ticket
  | done key => exact .givenBack key
  | shutDown =>
    rw [act]
    cases hc : s.2.closed with
    | true =>
      rw [shutDown, if_pos hc]
      exact .shutAgain hc
    | false =>
      rw [shutDown_of_open hc]
      exact .shut hc

end ControlLoop.Queue
