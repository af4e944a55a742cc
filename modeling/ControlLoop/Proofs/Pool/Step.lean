import ControlLoop.Proofs.Queue.Sound
import ControlLoop.Loop.PoolStep

/-!
# What a step of a pool can do

`Pool.act` says what a step does by going down into the queue and the tables of a pool. `Pool.Step`
says the same once more as a list of outcomes, each with everything that was checked for it, the
pool that it leaves behind and its notices. `step_of_act` is the only place where `Pool.act` is
taken apart; all that is shown of runs is shown by the outcomes of `Pool.Step`.

The lemmas about the parts of a step (`enqueue_of_open`, `ask_of_cons`, `trigger_of_closed` and the
like) compute what a part comes to once it is known whether the queue is open and what waits in it.
For each kind of action one lemma (`step_of_trigger`, `step_of_work`, `step_of_supervise` and so on)
goes through the checks that `Pool.act` makes and names the outcome; `step_of_act` puts these
together.
-/

namespace ControlLoop.Pool

/-- The pool after a trigger was accepted. -/
def accept (p : Pool) (key : Key) (kind : Trigger) : Pool :=
  { p with kinds := p.kinds.insert key (outweigh kind p.kinds[key]?), queue := p.queue.insert key }

/-- The kind that a key is handed out with. -/
def kindOf (p : Pool) (key : Key) : Trigger := p.kinds[key]?.getD .auto

/-- The pool after a worker took the first key that waits. -/
def taken (p : Pool) (i : Nat) (key : Key) (rest : List Key) : Pool :=
  { p with kinds := p.kinds.erase key, queue := p.queue.handOut i key rest }.moveTo i (.holding key (p.kindOf key))

/-- The pool after a worker gave its key back. -/
def givenBack (p : Pool) (i : Nat) (key : Key) : Pool := { p with queue := p.queue.done key }.moveTo i .asking

/-- The outcomes of a step, each with all that was checked for it, the pool that it leaves and its
notices. There is one case for each way through `Pool.act`. -/
inductive Step (setup : Setup) (clocks : Clocks) (p : Pool) : Action → Pool → List Notice → Prop where
  -- triggers
  | accepted {key kind} (ho : p.queue.closed = false) :
    Step setup clocks p (.trigger key kind) (p.accept key kind) [.accepted key kind]
  | refused {key kind} (hc : p.queue.closed = true ∨ p.phase = .stopped) :
    Step setup clocks p (.trigger key kind) p [.refused key]
  -- the life of the pool
  | started (hi : p.phase = .idle) : Step setup clocks p .run (p.start setup clocks) []
  | stopRequested : Step setup clocks p .stop { p with stopRequested := true } []
  -- a worker and the queue
  | took {i key rest} (hw : p.workers[i]? = some .asking) (hb : i ∉ p.queue.bell.waiting)
      (hp : p.queue.pending = key :: rest) :
    Step setup clocks p (.work i) (p.taken i key rest) [.delivered key (p.kindOf key)]
  | left {i} (hw : p.workers[i]? = some .asking) (hb : i ∉ p.queue.bell.waiting) (hp : p.queue.pending = [])
      (hc : p.queue.closed = true) :
    Step setup clocks p (.work i)
      ({ p with queue := { p.queue with bell := p.queue.bell.arrive i } }.moveTo i .exited) []
  | waited {i} (hw : p.workers[i]? = some .asking) (hb : i ∉ p.queue.bell.waiting) (hp : p.queue.pending = [])
      (ho : p.queue.closed = false) :
    Step setup clocks p (.work i) { p with queue := { p.queue with bell := (p.queue.bell.arrive i).wait i } } []
  | released {i key} (hw : p.workers[i]? = some (.releasing key)) :
    Step setup clocks p (.work i) (p.givenBack i key) []
  -- a worker and the handler
  | began {i key kind} (hw : p.workers[i]? = some (.holding key kind)) :
    Step setup clocks p (.work i)
      (p.moveTo i (.handling ⟨key, kind, p.retryCount key, clocks.wall, clocks.now⟩)) [.began key]
  | succeeded {i a result} (hw : p.workers[i]? = some (.handling a)) (hr : result.error? = none) :
    Step setup clocks p (.finish i result)
      ({ p with accounts := p.accounts.erase a.key }.moveTo i (.settled a (a.elapsed clocks.now) .success)) []
  | failed {i a result error} (hw : p.workers[i]? = some (.handling a)) (hr : result.error? = some error) :
    Step setup clocks p (.finish i result)
      ({ p with accounts := p.accounts.insert a.key ⟨p.retryCount a.key + 1, error⟩ }.moveTo i
        (.counting a (a.elapsed clocks.now) error (p.retryCount a.key + 1))) []
  -- a worker after a failure
  | dropped {i a d e f} (hw : p.workers[i]? = some (.counting a d e f)) (hf : setup.retryLimit < f) :
    Step setup clocks p (.work i)
      ({ p with accounts := p.accounts.erase a.key }.moveTo i (.settled a d (.failureFinal e))) []
  | kept {i a d e f} (hw : p.workers[i]? = some (.counting a d e f)) (hf : f ≤ setup.retryLimit) :
    Step setup clocks p (.work i)
      ({ p with kinds := p.kinds.insertIfNew a.key a.trigger }.moveTo i (.retrying a d e f)) []
  | retriedAtOnce {i a d e f} (hw : p.workers[i]? = some (.retrying a d e f)) (ho : p.queue.closed = false)
      (hd : (setup.backoff.delay f).nanos = 0) :
    Step setup clocks p (.work i)
      ({ p with queue := p.queue.insert a.key }.moveTo i (.settled a d (.failure e))) []
  | retryCovered {i a d e f m} (hw : p.workers[i]? = some (.retrying a d e f)) (ho : p.queue.closed = false)
      (hd : (setup.backoff.delay f).nanos ≠ 0) (hm : p.queue.delayed[a.key]? = some m)
      (hle : m ≤ clocks.now + (setup.backoff.delay f).nanos) :
    Step setup clocks p (.work i) (p.moveTo i (.settled a d (.failure e))) []
  | retryDelayed {i a d e f} (hw : p.workers[i]? = some (.retrying a d e f)) (ho : p.queue.closed = false)
      (hd : (setup.backoff.delay f).nanos ≠ 0)
      (hm : ∀ m, p.queue.delayed[a.key]? = some m → clocks.now + (setup.backoff.delay f).nanos < m) :
    Step setup clocks p (.work i)
      ({ p with queue := p.queue.setTimer a.key (clocks.now + (setup.backoff.delay f).nanos) }.moveTo i
        (.settled a d (.failure e)))
      [.delayed a.key (clocks.now + (setup.backoff.delay f).nanos)]
  | retryRefused {i a d e f} (hw : p.workers[i]? = some (.retrying a d e f)) (hc : p.queue.closed = true) :
    Step setup clocks p (.work i)
      ({ p with accounts := p.accounts.erase a.key }.moveTo i (.settled a d (.failureFinal e))) []
  | recorded {i a d o} (hw : p.workers[i]? = some (.settled a d o)) :
    Step setup clocks p (.work i)
      ((p.record fun id => a.record id d o).moveTo i (.releasing a.key))
      [.recorded (a.record (Uuid.ofAttempt p.recordCount) d o)]
  -- timers
  | fired {key m} (ht : (key, m) ∈ p.queue.timers) (hm : p.queue.delayed[key]? = some m) (hle : m ≤ clocks.now) :
    Step setup clocks p (.fire key m) { p with queue := p.queue.fire key m }
      (if p.queue.closed then [] else [.released key])
  | lapsed {key m} (hm : p.queue.delayed[key]? ≠ some m) :
    Step setup clocks p (.fire key m) { p with queue := p.queue.fire key m } []
  -- the resync
  | ticked {keys due rhythm} (hr : p.resync = .ticking due []) (hs : setup.resync = some rhythm)
      (hdue : due ≤ clocks.now) :
    Step setup clocks p (.tick keys) { p with resync := .ticking (nextTick clocks.now due rhythm.period) keys } []
  | put {key next left} (ho : p.queue.closed = false) (hr : p.resync = .ticking next (key :: left)) :
    Step setup clocks p (.put key) { p.accept key .auto with resync := .ticking next left } [.accepted key .auto]
  | putLate {key next left} (hc : p.queue.closed = true) (hr : p.resync = .ticking next (key :: left)) :
    Step setup clocks p (.put key) { p with resync := .ticking next left } []
  | resyncEnded {next} (hr : p.resync = .ticking next []) (hs : p.supervisor = .endingResync) :
    Step setup clocks p .endResync { p with resync := .ended } []
  -- the supervisor
  | heard (hs : p.supervisor = .listening) : Step setup clocks p .supervise { p with supervisor := .endingResync } []
  | shut (hs : p.supervisor = .endingResync) (hr : ∀ next left, p.resync ≠ .ticking next left) :
    Step setup clocks p .supervise
      { p with queue := p.queue.shutDown.2, supervisor := .draining p.queue.shutDown.1 } []
  | passedOver {key cancelled} (hs : p.supervisor = .draining (key :: cancelled))
      (he : ∀ s ∈ p.workers, s = .exited) (ha : p.accounts[key]? = none) :
    Step setup clocks p .supervise { p with supervisor := .draining cancelled } []
  | closedOut {key cancelled account} (hs : p.supervisor = .draining (key :: cancelled))
      (he : ∀ s ∈ p.workers, s = .exited) (ha : p.accounts[key]? = some account) :
    Step setup clocks p .supervise
      { ({ p with accounts := p.accounts.erase key, kinds := p.kinds.erase key }.record fun id =>
          ⟨id, key, p.kindOf key, clocks.wall, Span.zero, .failureFinal account.lastError, account.failures⟩) with
        supervisor := .draining cancelled }
      [.recorded ⟨Uuid.ofAttempt p.recordCount, key, p.kindOf key, clocks.wall, Span.zero,
        .failureFinal account.lastError, account.failures⟩]
  | forgot (hs : p.supervisor = .draining []) (he : ∀ s ∈ p.workers, s = .exited) :
    Step setup clocks p .supervise { p with kinds := ∅, supervisor := .closing } []
  | stopped (hs : p.supervisor = .closing) :
    Step setup clocks p .supervise { p with phase := .stopped, supervisor := .finished } []

variable {setup : Setup} {clocks : Clocks} {p q : Pool} {notices : List Notice}

/-- An open queue takes every key, and the kind is noted along with it: an `accept` is all that
`enqueue` does. -/
theorem enqueue_of_open (ho : p.queue.closed = false) (key : Key) (kind : Trigger) :
    p.enqueue key kind = (true, p.accept key kind) := by
  rw [enqueue, Queue.addWith_of_open ho]
  rfl

/-- A queue that is shut takes no key, and no kind is noted for a key that was not taken. -/
theorem enqueue_of_closed (hc : p.queue.closed = true) (key : Key) (kind : Trigger) :
    p.enqueue key kind = (false, p) := by
  rw [enqueue, Queue.addWith_of_closed hc]

theorem delayedNotices_of_timers_eq {old new : Queue} (h : new.timers = old.timers) : delayedNotices old new = [] := by
  simp [delayedNotices, h]

/-- A timer that is set comes last in the list of timers, so it is the one that is told of. -/
theorem delayedNotices_setTimer (q : Queue) (key : Key) (m : Moment) :
    delayedNotices q (q.setTimer key m) = [.delayed key m] := by
  simp [delayedNotices, Queue.setTimer]

/-- While the pool is not stopped and its queue is open, a trigger is accepted. -/
theorem trigger_of_open (ho : p.queue.closed = false) (hs : p.phase ≠ .stopped) (key : Key) (kind : Trigger) :
    p.trigger key kind = (true, p.accept key kind) := by
  rw [trigger, if_neg hs, enqueue_of_open ho]

/-- A trigger is refused for two reasons: the pool is stopped, or its queue is shut already, which
comes before that. Either way nothing of the pool changes. -/
theorem trigger_of_closed (h : p.queue.closed = true ∨ p.phase = .stopped) (key : Key) (kind : Trigger) :
    p.trigger key kind = (false, p) := by
  rw [trigger]
  split
  · rfl
  · next hs => exact enqueue_of_closed (h.resolve_right hs) key kind

/-- A trigger is accepted or refused, as the queue and the phase of the pool have it. -/
theorem step_of_trigger {key : Key} {kind : Trigger}
    (h : p.act setup clocks (.trigger key kind) = some (q, notices)) :
    Step setup clocks p (.trigger key kind) q notices := by
  by_cases hc : p.queue.closed = true ∨ p.phase = .stopped
  · simp only [act, trigger_of_closed hc] at h
    cases h
    exact .refused hc
  · obtain ⟨ho, hs⟩ := not_or.mp hc
    rw [Bool.not_eq_true] at ho
    simp only [act, trigger_of_open ho hs] at h
    cases h
    exact .accepted ho

/-- A worker that finds a key waiting takes the first one, together with the kind that is noted for
it. -/
theorem ask_of_cons {i : Nat} {key : Key} {rest : List Key} (hp : p.queue.pending = key :: rest) :
    p.ask i = (p.taken i key rest, [.delivered key (p.kindOf key)]) := by
  simp only [ask, Queue.getWith_of_cons hp]
  rfl

/-- A worker that finds nothing in a queue that is shut leaves for good. -/
theorem ask_of_closed {i : Nat} (hp : p.queue.pending = []) (hc : p.queue.closed = true) :
    p.ask i = ({ p with queue := { p.queue with bell := p.queue.bell.arrive i } }.moveTo i .exited, []) := by
  simp only [ask, Queue.getWith_of_closed hp hc]

/-- A worker that finds nothing in an open queue waits for the bell, with its own number as its
ticket. -/
theorem ask_of_open {i : Nat} (hp : p.queue.pending = []) (ho : p.queue.closed = false) :
    p.ask i = ({ p with queue := { p.queue with bell := (p.queue.bell.arrive i).wait i } }, []) := by
  simp only [ask, Queue.getWith_of_open hp ho]

/-- What a worker finds when it asks for a key: one that waits, or none in a queue that is shut, or
none yet. -/
theorem step_of_ask {i : Nat} (hw : p.workers[i]? = some .asking) (hb : i ∉ p.queue.bell.waiting)
    (h : p.ask i = (q, notices)) :
    Step setup clocks p (.work i) q notices := by
  cases hp : p.queue.pending with
  | cons key rest =>
    rw [ask_of_cons hp] at h
    cases h
    exact .took hw hb hp
  | nil =>
    cases hc : p.queue.closed with
    | true =>
      rw [ask_of_closed hp hc] at h
      cases h
      exact .left hw hb hp hc
    | false =>
      rw [ask_of_open hp hc] at h
      cases h
      exact .waited hw hb hp hc

/-- What comes of a failure that the pool forgives: the key is put in at once, or a timer is set, or
an earlier timer of the key makes another one superfluous; or the queue is shut and the key is
dropped. -/
theorem step_of_retry {i : Nat} {a : Attempt} {d : Span} {e : String} {f : Nat}
    (hw : p.workers[i]? = some (.retrying a d e f)) (h : p.retry setup clocks i a d e f = (q, notices)) :
    Step setup clocks p (.work i) q notices := by
  unfold retry at h
  cases hc : p.queue.closed with
  | true =>
    rw [Queue.addAfter?_of_closed hc] at h
    cases h
    exact .retryRefused hw hc
  | false =>
    -- an open queue knows three ways to put a key in after a delay
    rcases Queue.addAfter?_of_open hc clocks.now a.key (setup.backoff.delay f) with
      ⟨hd, heq⟩ | ⟨hd, ⟨m, hm, hle⟩, heq⟩ | ⟨hd, hm, heq⟩
    · rw [heq] at h
      simp only [delayedNotices_of_timers_eq (Queue.insert_timers _ _)] at h
      cases h
      exact .retriedAtOnce hw hc hd
    · rw [heq] at h
      simp only [delayedNotices_of_timers_eq] at h
      cases h
      exact .retryCovered hw hc hd hm hle
    · rw [heq] at h
      simp only [delayedNotices_setTimer] at h
      cases h
      exact .retryDelayed hw hc hd hm

/-- What a worker can do that runs no handler, stage by stage. Only an `asking` and a `retrying`
worker depend on the queue. -/
theorem step_of_work {i : Nat} (h : p.act setup clocks (.work i) = some (q, notices)) :
    Step setup clocks p (.work i) q notices := by
  simp only [act, work] at h
  cases hw : p.workers[i]? with
  | none =>
    rw [hw] at h
    cases h
  | some stage =>
    rw [hw] at h
    cases stage with
    | asking =>
      simp only [Option.ite_none_left_eq_some, Option.some.injEq] at h
      exact step_of_ask hw h.1 h.2
    | holding key kind =>
      cases h
      exact .began hw
    | handling a => cases h
    | counting a d e f =>
      simp only [judge, Option.some.injEq, Prod.mk.injEq] at h
      obtain ⟨rfl, rfl⟩ := h
      split
      · next hf => exact .dropped hw hf
      · next hf => exact .kept hw (Nat.le_of_not_lt hf)
    | retrying a d e f =>
      simp only [Option.some.injEq] at h
      exact step_of_retry hw h
    | settled a d o =>
      cases h
      exact .recorded hw
    | releasing key =>
      cases h
      exact .released hw
    | exited => cases h

/-- The end of a handler: a success closes the account of the key, a failure is counted in it. -/
theorem step_of_finish {i : Nat} {result : Result}
    (h : p.act setup clocks (.finish i result) = some (q, notices)) :
    Step setup clocks p (.finish i result) q notices := by
  simp only [act] at h
  split at h
  · next a hw =>
    simp only [finish, Option.some.injEq, Prod.mk.injEq] at h
    obtain ⟨rfl, rfl⟩ := h
    split
    · next hr => exact .succeeded hw hr
    · next error hr => exact .failed hw hr
  · cases h

/-- A timer that is due goes off. If its deadline is not the one that is noted for the key, the
timer has given way to another one and nothing comes of it (`lapsed`). -/
theorem step_of_fire {key : Key} {m : Moment} (h : p.act setup clocks (.fire key m) = some (q, notices)) :
    Step setup clocks p (.fire key m) q notices := by
  simp only [act, Option.ite_none_right_eq_some, Option.some.injEq, Prod.mk.injEq] at h
  obtain ⟨⟨ht, hle⟩, rfl, rfl⟩ := h
  by_cases hm : p.queue.delayed[key]? = some m
  · have hstep : Step setup clocks p (.fire key m) _ _ := .fired ht hm hle
    cases hc : p.queue.closed <;> simpa [hm, hc] using hstep
  · have hstep : Step setup clocks p (.fire key m) _ _ := .lapsed hm
    simpa [hm] using hstep

/-- A tick takes the keys of the source and leaves them to be put in, one by one. -/
theorem step_of_tick {keys : List Key} (h : p.act setup clocks (.tick keys) = some (q, notices)) :
    Step setup clocks p (.tick keys) q notices := by
  simp only [act, tick] at h
  split at h
  · next due rhythm hr hs =>
    obtain ⟨hdue, heq⟩ := Option.ite_none_right_eq_some.mp h
    cases heq
    exact .ticked hr hs hdue
  · cases h

/-- The resync puts in the key that is next; if the queue has been shut meanwhile the key is passed
over without a word. -/
theorem step_of_put {key : Key} (h : p.act setup clocks (.put key) = some (q, notices)) :
    Step setup clocks p (.put key) q notices := by
  simp only [act, put] at h
  split at h
  · next next first left hr =>
    obtain ⟨rfl, heq⟩ := Option.ite_none_right_eq_some.mp h
    -- the resync does not ask whether the key was taken, and goes on either way
    cases hc : p.queue.closed with
    | false =>
      rw [enqueue_of_open hc] at heq
      cases heq
      exact .put hc hr
    | true =>
      rw [enqueue_of_closed hc] at heq
      cases heq
      exact .putLate hc hr
  · cases h

/-- What the supervisor can do at each of its stages, with what it has waited for. -/
theorem step_of_supervise (h : p.act setup clocks .supervise = some (q, notices)) :
    Step setup clocks p .supervise q notices := by
  simp only [act, supervise] at h
  cases hs : p.supervisor with
  | absent | finished =>
    rw [hs] at h
    cases h
  | listening =>
    simp only [hs, Option.ite_none_right_eq_some, Option.some.injEq] at h
    obtain ⟨-, h⟩ := h
    cases h
    exact .heard hs
  | endingResync =>
    simp only [hs] at h
    split at h
    · cases h
    · next hr =>
      cases h
      exact .shut hs (by simp [hr])
    · next hr =>
      cases h
      exact .shut hs (by simp [hr])
  | draining cancelled =>
    -- all workers have left, and the accounts of the cancelled keys are closed one by one
    simp only [hs, Option.ite_none_right_eq_some, List.all_eq_true, decide_eq_true_eq] at h
    obtain ⟨he, h⟩ := h
    cases cancelled with
    | nil =>
      cases h
      exact .forgot hs he
    | cons key cancelled =>
      simp only [abandon] at h
      cases ha : p.accounts[key]? with
      | none =>
        rw [ha] at h
        cases h
        exact .passedOver hs he ha
      | some account =>
        rw [ha] at h
        cases h
        exact .closedOut hs he ha
  | closing =>
    simp only [hs] at h
    cases h
    exact .stopped hs

/-- Every step has one of the outcomes. This is the only place where `Pool.act` is taken apart; from
here on a proof about all steps goes by the cases of `Step`. -/
theorem step_of_act {a : Action} (h : p.act setup clocks a = some (q, notices)) :
    Step setup clocks p a q notices := by
  cases a with
  | trigger key kind => exact step_of_trigger h
  | run =>
    simp only [act, Option.ite_none_right_eq_some, Option.some.injEq] at h
    obtain ⟨hi, h⟩ := h
    cases h
    exact .started hi
  | stop =>
    cases h
    exact .stopRequested
  | work i => exact step_of_work h
  | finish i result => exact step_of_finish h
  | fire key m => exact step_of_fire h
  | tick keys => exact step_of_tick h
  | put key => exact step_of_put h
  | endResync =>
    simp only [act] at h
    split at h
    · next hr hs =>
      cases h
      exact .resyncEnded hr hs
    · cases h
  | supervise => exact step_of_supervise h

end ControlLoop.Pool
