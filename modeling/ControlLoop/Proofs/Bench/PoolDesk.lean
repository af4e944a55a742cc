import ControlLoop.Bench.Pool
import ControlLoop.Proofs.Bench.Desk
import ControlLoop.Proofs.Pool.Attentive

/-!
# A pool with one worker is a desk

A pool on the bench that has one worker, forgives no failure and has no resync refines the desk
(`PoolBench.refines`). What can not be seen at the desk is how the worker waits for the bell, counts
a failure and gives its key back, and all that the supervisor does.

`Manned` is what carries the proof. Along every run of the pool that has led here its worker is
attentive, its attempts are first ones and its keys stand in line; on the bench the worker and the
supervisor stand in the line of tasks unless there is nothing to do for them, and the only alarm is
that of a handler that sleeps.

The lemmas are those of a serial loop, with more tasks: turns of the worker, of the supervisor and
of the resync each have one, and each shows that nothing can be seen of the task, or that it does
what is next. The pool's own theory is used through a few facts about it alone: `Pool.InLine`, that
the keys stand in line; `Pool.Attentive`, that the worker is called when a key waits; and
`Pool.rest_of_run`, what it means that all tasks rest.
-/

namespace ControlLoop

namespace Pool

/-- What is in hand. A worker has its hands free as soon as the outcome is recorded. -/
def Stage.hand : Stage → Desk.Hand
  | asking | releasing _ | exited => .free
  | holding key kind => .holding key kind
  | handling a => .handling a
  | counting a duration error _ | retrying a duration error _ => .settled a duration (.failureFinal error)
  | settled a duration outcome => .settled a duration outcome

/-- What the only worker has in hand. -/
def hand (p : Pool) : Desk.Hand := p.workers.head?.elim .absent Stage.hand

/-- There is nothing to do for the only worker. -/
def Waits (p : Pool) : Prop := p.workers = [] ∨ p.workers = [.exited] ∨ 0 ∈ p.queue.bell.waiting

/-- Whether the supervisor can move on does not depend on the clocks. -/
theorem isSome_supervise (p : Pool) (clocks clocks' : Clocks) :
    (p.supervise clocks).isSome = (p.supervise clocks').isSome := by
  unfold supervise
  cases p.supervisor with
  | absent | listening | endingResync | closing | finished => rfl
  | draining cancelled =>
    simp only
    split
    · cases cancelled <;> rfl
    · rfl

/-- What a supervisor waits for that can not move on. -/
theorem resting_supervisor {p : Pool} {clocks : Clocks} (hr : p.resync = .absent)
    (h : (p.supervise clocks).isSome = false) :
    p.supervisor = .absent ∨ p.supervisor = .listening ∧ p.stopRequested = false ∨
      (∃ cancelled, p.supervisor = .draining cancelled ∧ ¬∀ s ∈ p.workers, s = .exited) ∨ p.supervisor = .finished := by
  unfold supervise at h
  cases hs : p.supervisor with
  | absent => exact .inl rfl
  | listening =>
    refine .inr (.inl ⟨rfl, ?_⟩)
    simpa [hs] using h
  | endingResync => simp [hs, hr] at h
  | draining cancelled =>
    refine .inr (.inr (.inl ⟨cancelled, rfl, fun hall => ?_⟩))
    have hexited : p.workers.all (· = .exited) = true := by simpa using hall
    simp only [hs, if_pos hexited] at h
    cases cancelled <;> cases h
  | closing => simp [hs] at h
  | finished => exact .inr (.inr (.inr rfl))

/-- When nothing is left to do for the only worker and for the supervisor, the pool has not begun,
or it waits for triggers, or it has stopped. A pool that is stuck in the middle of stopping there is
none. -/
theorem rest_of_run {setup : Setup} {capacity : Nat} {steps : List (Clocks × Action)} {p : Pool} {log : Log}
    {clocks : Clocks} (hw : setup.workers = 1) (hr : setup.resync = none)
    (h : run setup (fresh capacity) steps = some (p, log)) (hwaits : p.Waits)
    (hrest : (p.supervise clocks).isSome = false) :
    p.workers = [] ∧ p.phase = .idle ∨
      p.hand = .free ∧ p.line = [] ∧ p.phase = if p.stopRequested then .stopped else .running := by
  have hsound := sound_of_run h
  have hmobile := mobile_of_run h
  have hsupervisor := resting_supervisor (resync_of_run hr h) hrest
  rcases hwaits with hempty | hexited | hwaiting
  · refine .inl ⟨hempty, by_contra fun hi => ?_⟩
    have hlength := hsound.length_workers hi
    rw [hempty, hw] at hlength
    cases hlength
  · refine .inr ⟨by rw [hand, hexited]; rfl, ?_, ?_⟩
    · have hdrained := hsound.drained (by simp [hexited]) (by simp [hexited])
      rw [line, hdrained, List.map_nil]
    · -- a worker leaves only a queue that is shut, and then the supervisor has come to its end
      have hshut := hsound.closed_eq.symm.trans (hsound.closed_of_exited (by simp [hexited]))
      rcases hsupervisor with hs | ⟨hs, -⟩ | ⟨cancelled, -, hall⟩ | hs
      · simp [hs, Supervisor.hasShut] at hshut
      · simp [hs, Supervisor.hasShut] at hshut
      · simp [hexited] at hall
      · have hstop : p.stopRequested = true := by simpa [Heeds, hs] using heeds_of_run h
        rw [hmobile.ended hs, hstop]
        rfl
  · have hattentive := attentive_of_run hw h
    obtain ⟨hpending, ho⟩ := hattentive.waits (List.ne_nil_of_mem hwaiting)
    have hasking := hsound.waiting 0 hwaiting
    have hstarted := hsound.phase_ne_idle hasking
    refine .inr ⟨?_, by rw [line, hpending, List.map_nil], ?_⟩
    · rw [hand, List.head?_eq_getElem?, hasking]
      rfl
    · have hopen := hsound.closed_eq.symm.trans ho
      rcases hsupervisor with hs | ⟨hs, hgo⟩ | ⟨cancelled, hs, -⟩ | hs
      · exact absurd (hmobile.started hs) hstarted
      · rw [hgo]
        cases hp : p.phase with
        | idle => exact absurd hp hstarted
        | running => rfl
        | stopped => cases ho.symm.trans (hsound.closed_of_stopped hp)
      · simp [hs, Supervisor.hasShut] at hopen
      · simp [hs, Supervisor.hasShut] at hopen

end Pool

namespace PoolBench

variable {ω : Type}

/-- What a pool is made with that has one worker, forgives no failure and has no resync. -/
def lone (backoff : Backoff) : Pool.Setup := ⟨1, 0, backoff, none⟩

/-- The desk that is seen in a pool. -/
def State.desk (s : State ω) : Desk ω where
  line := s.pool.line
  hand := s.pool.hand
  ledger := s.pool.ledger
  recordCount := s.pool.recordCount
  stopRequested := s.pool.stopRequested
  flight := s.flight

/-- How far the pool has come. -/
def State.phase (s : State ω) : Phase := s.pool.phase

/-- What a request does to the pool. -/
abbrev ask : PoolBench ω → Request → PoolBench ω := (rig ω).ask

/-- Some steps have led from a pool that had not run to this one, and the log tells of them. -/
def State.Reached (capacity : Nat) (s : State ω) : Prop :=
  ∃ steps, Pool.run s.setup (.fresh capacity) steps = some (s.pool, s.flight.log.reverse)

/-- The worker and the supervisor are in the line unless there is nothing to do for them. The pool
has been reached by a run of its own, so all that is known of such runs may be used. -/
structure Manned (backoff : Backoff) (handler : Handler ω) (capacity : Nat) (b : PoolBench ω) : Prop where
  /-- the pool has one worker, forgives no failure and has no resync -/
  setup : b.state.setup = lone backoff
  /-- this handler is run -/
  handler : b.state.handler = handler
  /-- the pool has run so far -/
  reached : b.state.Reached capacity
  /-- no task is in the line twice -/
  nodup : b.ready.Nodup
  /-- there are no timers -/
  untimed : ∀ key m, .timer key m ∉ b.ready
  /-- the only alarm is that of a handler that sleeps -/
  alarms : b.alarms = [] ∨
    ∃ t a, b.alarms = [(t, .worker 0)] ∧ b.now < t ∧ b.state.pool.workers = [.handling a] ∧ .worker 0 ∉ b.ready
  /-- the worker is in the line when there is something to do for it -/
  attends : b.alarms = [] → .worker 0 ∉ b.ready → b.state.pool.Waits
  /-- whoever can go on is in the line -/
  roused : ∀ now, (machine ω).awake now b.state ⊆ b.ready

/-- How many turns are left that can not be seen at the desk. -/
def rank (b : PoolBench ω) : Nat × Nat := (b.state.pool.rank false, b.ready.length)

variable {backoff : Backoff} {handler : Handler ω} {capacity : Nat} {b : PoolBench ω} {s : State ω}
  {started ready : List Task} {a : Attempt}

namespace State.Reached

/-- A step of the pool that is taken down in the log leads to a pool that has been reached. -/
theorem act {now : Moment} {a : Pool.Action} {pool : Pool} {notices : List Notice} (h : s.Reached capacity)
    (hact : s.pool.act s.setup (s.flight.clocks now) a = some (pool, notices)) :
    State.Reached capacity { s with pool, flight := s.flight.note now notices } := by
  obtain ⟨steps, hrun⟩ := h
  refine ⟨steps ++ [(s.flight.clocks now, a)], Pool.run_concat_eq_some.mpr ⟨_, _, notices, hrun, hact, ?_⟩⟩
  rw [Flight.note, List.reverse_append, List.reverse_reverse]
  rfl

theorem setFlight (h : s.Reached capacity) {flight : Flight ω} (hf : flight.log = s.flight.log) :
    State.Reached capacity { s with flight } := by
  obtain ⟨steps, hrun⟩ := h
  exact ⟨steps, hf ▸ hrun⟩

theorem sound (h : s.Reached capacity) : s.pool.Sound s.setup :=
  h.elim fun _ hrun => Pool.sound_of_run hrun

theorem attentive (h : s.Reached capacity) (hs : s.setup = lone backoff) : s.pool.Attentive :=
  h.elim fun _ hrun => Pool.attentive_of_run (congrArg _ hs) hrun

theorem resync (h : s.Reached capacity) (hs : s.setup = lone backoff) : s.pool.resync = .absent :=
  h.elim fun _ hrun => Pool.resync_of_run (congrArg _ hs) hrun

theorem retryCount (h : s.Reached capacity) (hs : s.setup = lone backoff) {i : Nat} {key : Key} {kind : Trigger}
    (hw : s.pool.workers[i]? = some (.holding key kind)) : s.pool.retryCount key = 0 :=
  h.elim fun _ hrun => Pool.retryCount_of_run (congrArg _ hs) hrun hw

/-- The keys stand in line, as long as none has come twice. -/
theorem inLine (h : s.Reached capacity) (hs : s.setup = lone backoff) (hclean : Clean s.flight.log) :
    ∃ accepted recorded, s.pool.InLine accepted recorded :=
  h.elim fun _ hrun => ⟨_, _, Pool.inLine_of_run (congrArg _ hs) (congrArg _ hs) hrun hclean.nodup_reverse⟩

/-- What is recorded, in hand and in line is together what was accepted; so a step that accepts and
records nothing moves keys from the line into the hand at most. -/
theorem balance {now : Moment} {a : Pool.Action} {pool : Pool} {notices : List Notice} (h : s.Reached capacity)
    (hs : s.setup = lone backoff) (hact : s.pool.act s.setup (s.flight.clocks now) a = some (pool, notices))
    (hclean : Clean (s.flight.note now notices).log) :
    s.pool.workers.flatMap Pool.Stage.inHand ++ s.pool.line ++ notices.filterMap Notice.accepted? =
      (notices.filterMap Notice.record?).map Record.cause ++
        (pool.workers.flatMap Pool.Stage.inHand ++ pool.line) := by
  obtain ⟨steps, hrun⟩ := h
  refine Pool.balance_of_run (congrArg _ hs) (congrArg _ hs) hrun hact ?_
  have hn := hclean.nodup_reverse
  rw [Flight.note, List.reverse_append, List.reverse_reverse] at hn
  exact hn

/-- A trigger that is not refused is the last in line. -/
theorem line_trigger {now : Moment} {key : Key} {kind : Trigger} {pool : Pool} {notices : List Notice}
    (h : s.Reached capacity) (hs : s.setup = lone backoff)
    (hact : s.pool.act s.setup (s.flight.clocks now) (.trigger key kind) = some (pool, notices))
    (hclean : Clean (s.flight.note now notices).log) :
    notices = [.accepted key kind] ∧ pool = s.pool.accept key kind ∧ pool.line = s.pool.line ++ [(key, kind)] := by
  have hbalance := h.balance hs hact hclean
  cases Pool.step_of_act hact with
  | accepted =>
    refine ⟨rfl, rfl, ?_⟩
    simpa [Pool.accept, Notice.accepted?, Notice.record?, List.filterMap_cons] using hbalance.symm
  | refused => exact absurd hclean.willing Willing.not_refused

end State.Reached

namespace Manned

/-- No timer is woken: nothing is delayed in a pool without retries. -/
theorem timer_not_mem_awake (now : Moment) (s : State ω) (key : Key) (m : Moment) :
    .timer key m ∉ (machine ω).awake now s := by
  simp [machine, State.awake]

/-- Who can go on does not depend on the moment. -/
theorem awake_eq (s : State ω) (now now' : Moment) : (machine ω).awake now s = (machine ω).awake now' s := by
  have hend : ((rig ω).act? now s .endResync).isSome = ((rig ω).act? now' s .endResync).isSome := by
    rw [Rig.act?, Rig.act?, Option.isSome_map, Option.isSome_map]
    rfl
  have hsupervise : ((rig ω).act? now s .supervise).isSome = ((rig ω).act? now' s .supervise).isSome := by
    rw [Rig.act?, Rig.act?, Option.isSome_map, Option.isSome_map]
    exact s.pool.isSome_supervise _ _
  simp only [machine, State.awake, hend, hsupervise]

theorem awake_subset (now : Moment) : (machine ω).awake now s ⊆ (b.modify s started).ready := fun _ ht =>
  Bench.mem_ready_modify.mpr (.inr (.inr (awake_eq s now b.now ▸ ht)))

/-- A bench whose worker is in the line, or has nothing to do, after the state has changed. -/
theorem modify (hs : s.setup = lone backoff) (hh : s.handler = handler) (hr : s.Reached capacity) (hn : b.ready.Nodup)
    (hu : ∀ key m, .timer key m ∉ b.ready ++ started) (ha : b.alarms = [])
    (hw : .worker 0 ∈ b.ready ++ started ∨ 0 ∈ s.pool.queue.bell.called ∨ s.pool.Waits) :
    Manned backoff handler capacity (b.modify s started) where
  setup := hs
  handler := hh
  reached := hr
  nodup := Bench.nodup_join hn
  untimed key m := by
    rw [Bench.mem_ready_modify, ← or_assoc, ← List.mem_append]
    exact not_or.mpr ⟨hu key m, timer_not_mem_awake b.now s key m⟩
  alarms := .inl ha
  attends _ hout := by
    rw [Bench.mem_ready_modify, ← or_assoc, ← List.mem_append, not_or] at hout
    refine (hw.resolve_left hout.1).resolve_left fun hcalled => hout.2 ?_
    simp [machine, State.awake, hcalled]
  roused := awake_subset

/-- A bench whose handler sleeps. -/
theorem modify_asleep {t : Moment} (hs : s.setup = lone backoff) (hh : s.handler = handler) (hr : s.Reached capacity)
    (hn : b.ready.Nodup) (hu : ∀ key m, .timer key m ∉ b.ready) (ha : b.alarms = [(t, .worker 0)]) (hlt : b.now < t)
    (hw : s.pool.workers = [.handling a]) (hout : .worker 0 ∉ b.ready) :
    Manned backoff handler capacity (b.modify s []) := by
  have hstage : s.pool.workers[0]? = some (.handling a) := by rw [hw]; rfl
  have hnobody : s.pool.queue.bell.called = [] :=
    (List.append_eq_nil_iff.mp ((hr.attentive hs).nobody hstage (by simp))).2
  refine ⟨hs, hh, hr, Bench.nodup_join hn, fun key m => ?_, .inr ⟨t, a, ha, hlt, hw, ?_⟩, fun hnone => ?_,
    awake_subset⟩
  · rw [Bench.mem_ready_modify]
    simp [hu key m, timer_not_mem_awake]
  · rw [Bench.mem_ready_modify]
    simp [hout, machine, State.awake, hnobody]
  · cases ha.symm.trans hnone

/-- The worker stays where it is, and so does whoever is not done with the line. -/
theorem stay (h : b.Manned backoff handler capacity) (hs : s.setup = lone backoff) (hh : s.handler = handler)
    (hr : s.Reached capacity) (hn : ready.Nodup) (hsub : ready ⊆ b.ready) (hw : .worker 0 ∈ b.ready → .worker 0 ∈ ready)
    (hworkers : s.pool.workers = b.state.pool.workers)
    (hbell : s.pool.queue.bell.holders.Perm b.state.pool.queue.bell.holders) :
    Manned backoff handler capacity ({ b with ready }.modify s []) := by
  have hu : ∀ key m, .timer key m ∉ ready := fun key m hmem => h.untimed key m (hsub hmem)
  rcases h.alarms with hnone | ⟨t, a, halarm, hlt, hstage, hout⟩
  · refine .modify hs hh hr hn (by simpa using hu) hnone ?_
    by_cases hmem : .worker 0 ∈ b.ready
    · exact .inl (List.mem_append_left _ (hw hmem))
    · refine .inr ?_
      rcases h.attends hnone hmem with hempty | hexited | hwaiting
      · exact .inr (.inl (hworkers.trans hempty))
      · exact .inr (.inr (.inl (hworkers.trans hexited)))
      · have hholder : 0 ∈ s.pool.queue.bell.holders := hbell.mem_iff.mpr (List.mem_append_left _ hwaiting)
        rcases List.mem_append.mp hholder with hwaits | hcalled
        · exact .inr (.inr (.inr hwaits))
        · exact .inl hcalled
  · exact .modify_asleep hs hh hr hn hu halarm hlt (hworkers.trans hstage) fun hmem => hout (hsub hmem)

end Manned

/-! ## Turns -/

/-- What the worker does while it runs no handler is what is next at the desk, or can not be seen
there. The first is so when it takes a key, begins to handle it, or records the outcome; the second
when it waits for the bell, counts a failure, gives its key back or leaves. -/
theorem desk_of_work {now : Moment} {pool : Pool} {notices : List Notice} (asleep : Option Moment)
    (h : s.Reached capacity) (hs : s.setup = lone backoff) (hclean : Clean s.flight.log)
    (hact : s.pool.act s.setup (s.flight.clocks now) (.work 0) = some (pool, notices))
    (hlater : Clean (s.flight.note now notices).log) :
    let flight := (s.flight.note now notices).callIfBegun s.handler 0 notices
    State.desk { s with pool, flight } = s.desk ∨
      Office.next? s.handler ⟨s.desk, now, asleep⟩ = some ⟨State.desk { s with pool, flight }, now, asleep⟩ := by
  obtain ⟨accepted, recorded, hinline⟩ := h.inLine hs hclean
  have hbalance := h.balance hs hact hlater
  cases Pool.step_of_act hact with
  | @took _ key rest hw _ hp =>
    obtain ⟨hold, -⟩ := hinline.workers_eq hw
    have hline : s.pool.line = (key, s.pool.kindOf key) :: (s.pool.taken 0 key rest).line := by
      simpa [hold, Pool.taken, Pool.moveTo, Pool.Stage.inHand, Notice.accepted?, Notice.record?, List.filterMap_cons]
        using hbalance
    refine .inr ?_
    simp only [Office.next?, State.desk, Pool.hand, hold, hline, List.head?_cons, Option.elim_some, Pool.Stage.hand,
      Pool.taken, Pool.moveTo, List.set_cons_zero]
    rfl
  | waited hw => exact .inl rfl
  | @released _ key hw =>
    obtain ⟨hold, -⟩ := hinline.workers_eq hw
    have hline : s.pool.line = (s.pool.givenBack 0 key).line := by
      simpa [hold, Pool.givenBack, Pool.moveTo, Pool.Stage.inHand] using hbalance
    refine .inl ?_
    simp only [State.desk, Pool.hand, hold, hline, Pool.givenBack, Pool.moveTo]
    rfl
  | @began _ key kind hw =>
    obtain ⟨hold, -⟩ := hinline.workers_eq hw
    have hfirst := h.retryCount hs hw
    refine .inr ?_
    simp only [Office.next?, State.desk, Pool.hand, hold, List.head?_cons, Option.elim_some, Pool.Stage.hand,
      Pool.moveTo, List.set_cons_zero, hfirst]
    rfl
  | left hw | dropped hw =>
    obtain ⟨hold, -⟩ := hinline.workers_eq hw
    refine .inl ?_
    simp only [State.desk, Pool.hand, hold, Pool.moveTo]
    rfl
  | kept hw hf =>
    rw [hs] at hf
    exact absurd (hinline.isFinal hw) (Nat.not_lt.mpr hf)
  | retriedAtOnce hw | retryCovered hw | retryDelayed hw | retryRefused hw => exact (hinline.isFinal hw).elim
  | recorded hw =>
    obtain ⟨hold, -⟩ := hinline.workers_eq hw
    refine .inr ?_
    simp only [Office.next?, State.desk, Pool.hand, hold, List.head?_cons, Option.elim_some, Pool.Stage.hand,
      Pool.moveTo, Pool.record, List.set_cons_zero]
    rfl

namespace Manned

theorem alarms_eq_nil (h : b.Manned backoff handler capacity) (hmem : .worker 0 ∈ b.ready) : b.alarms = [] := by
  rcases h.alarms with hnone | ⟨t, a, -, -, -, hout⟩
  · exact hnone
  · exact absurd hmem hout

/-- A task that can do nothing leaves the line. -/
theorem turn_wait {task : Task} (h : b.Manned backoff handler capacity) (hmem : task ∈ b.ready)
    (hstep : (machine ω).step b.now task b.state = ⟨b.state, .wait, []⟩)
    (hw : task = .worker 0 → b.state.pool.Waits) (hout : task ∉ (machine ω).awake b.now b.state) :
    Manned backoff handler capacity (b.turn task) ∧ Bench.Unseen State.desk rank b (b.turn task) := by
  have hsub : (machine ω).awake b.now b.state ⊆ b.ready.erase task := fun t ht =>
    (List.mem_erase_of_ne (ne_of_mem_of_not_mem ht hout)).mpr (h.roused b.now ht)
  have hlt := Bench.length_ready_turn_lt hmem hstep hsub
  rw [Bench.turn_of_wait hstep] at hlt ⊢
  refine ⟨?_, ⟨rfl, .right _ hlt⟩⟩
  by_cases htask : task = .worker 0
  · subst htask
    refine .modify h.setup h.handler h.reached (h.nodup.erase _) (fun key m hin => ?_) (h.alarms_eq_nil hmem)
      (.inr (.inr (hw rfl)))
    rw [List.append_nil] at hin
    exact h.untimed key m (List.mem_of_mem_erase hin)
  · exact h.stay h.setup h.handler h.reached (h.nodup.erase task) List.erase_subset
      (List.mem_erase_of_ne (Ne.symm htask)).mpr rfl (.refl _)

/-- There is no resync, and its task only leaves the line. -/
theorem turn_resync (h : b.Manned backoff handler capacity) (hmem : .resync ∈ b.ready) :
    Manned backoff handler capacity (b.turn .resync) ∧ Bench.Unseen State.desk rank b (b.turn .resync) := by
  have hnone := h.reached.resync h.setup
  refine h.turn_wait hmem ?_ (by simp) ?_
  · simp [machine, State.step, State.resync, Rig.act?, Pool.act, hnone]
  · simp [machine, State.awake, Rig.act?, Pool.act, hnone]

/-- Nothing can be seen of what the supervisor does: it hears the signal, shuts the queue, forgets
the kinds and stops the pool. There are no retries for it to close, as no key is ever delayed. -/
theorem turn_supervisor (h : b.Manned backoff handler capacity) (hmem : .supervisor ∈ b.ready)
    (hclean : Clean b.state.flight.log) :
    Manned backoff handler capacity (b.turn .supervisor) ∧ Bench.Unseen State.desk rank b (b.turn .supervisor) := by
  cases hact : b.state.pool.act b.state.setup (b.state.flight.clocks b.now) .supervise with
  | none =>
    have hnone : (rig ω).act? b.now b.state .supervise = none := Rig.act?_of_none hact
    refine h.turn_wait hmem (Rig.actThen_of_none hact) (by simp) ?_
    simp [machine, State.awake, hnone]
  | some change =>
    obtain ⟨pool, notices⟩ := change
    have hstep : (machine ω).step b.now .supervisor b.state = _ := Rig.actThen_of_act (r := rig ω) hact
    have hperm := Pool.perm_holders_of_act h.reached.sound (by simp) hact
    have hreached := h.reached.act hact
    obtain ⟨accepted, recorded, hline⟩ := h.reached.inLine h.setup hclean
    have hseen : notices = [] ∧ pool.workers = b.state.pool.workers ∧ pool.ledger = b.state.pool.ledger ∧
        pool.recordCount = b.state.pool.recordCount ∧ pool.stopRequested = b.state.pool.stopRequested := by
      cases Pool.step_of_act hact with
      | heard | shut | forgot | stopped => exact ⟨rfl, rfl, rfl, rfl, rfl⟩
      -- it has no retries on its list
      | passedOver hs | closedOut hs =>
        have hnone := hline.cancelled
        rw [hs] at hnone
        cases hnone
    obtain ⟨rfl, hworkers, hledger, hcount, hstop⟩ := hseen
    have hbalance := h.reached.balance h.setup hact hclean
    have hsame : pool.line = b.state.pool.line := by simpa [hworkers] using hbalance.symm
    have hlt := hline.rank_lt_of_supervise h.reached.sound hact false
    rw [Bench.turn_of_goOn hstep]
    refine ⟨h.stay h.setup h.handler hreached h.nodup (List.Subset.refl _) id hworkers hperm, ⟨?_, .left _ _ hlt⟩⟩
    simp only [Bench.office, Bench.modify, State.desk, Pool.hand, hworkers, hledger, hcount, hstop, hsame]
    rfl

/-- A worker that the bell has called can take a step. -/
theorem worker_not_mem_awake {i : Nat} (h : b.Manned backoff handler capacity)
    (hact : b.state.pool.act b.state.setup (b.state.flight.clocks b.now) (.work i) = none) :
    .worker i ∉ (machine ω).awake b.now b.state := by
  have hquiet : i ∉ b.state.pool.queue.bell.called := by
    intro hi
    have hsome : (b.state.pool.act b.state.setup (b.state.flight.clocks b.now) (.work i)).isSome :=
      (h.reached.attentive h.setup).isSome_work hi
    rw [hact] at hsome
    cases hsome
  simp [machine, State.awake, hquiet]

/-- A worker that does not exist does nothing. -/
theorem turn_nobody {i : Nat} (h : b.Manned backoff handler capacity) (hmem : .worker i ∈ b.ready)
    (hw : b.state.pool.workers[i]? = none) :
    Manned backoff handler capacity (b.turn (.worker i)) ∧ Bench.Unseen State.desk rank b (b.turn (.worker i)) := by
  have hact : b.state.pool.act b.state.setup (b.state.flight.clocks b.now) (.work i) = none := by
    simp [Pool.act, Pool.work, hw]
  refine h.turn_wait hmem ?_ ?_ (h.worker_not_mem_awake hact)
  · simp only [machine, State.step, hw]
    exact Rig.work_of_none hact
  · rintro ⟨⟩
    exact .inl (List.length_eq_zero_iff.mp (Nat.le_zero.mp (List.getElem?_eq_none_iff.mp hw)))

/-- The worker goes on. -/
theorem goOn (h : b.Manned backoff handler capacity) (hmem : .worker 0 ∈ b.ready)
    (hstep : (machine ω).step b.now (.worker 0) b.state = ⟨s, .goOn, []⟩) (hs : s.setup = lone backoff)
    (hh : s.handler = handler) (hr : s.Reached capacity) :
    Manned backoff handler capacity (b.turn (.worker 0)) ∧
      (b.turn (.worker 0)).office State.desk = { b.office State.desk with desk := s.desk } := by
  rw [Bench.turn_of_goOn hstep]
  refine ⟨.modify hs hh hr h.nodup ?_ (h.alarms_eq_nil hmem) (.inl (List.mem_append_left _ hmem)), rfl⟩
  rw [List.append_nil]
  exact h.untimed

/-- The worker moves on while it runs no handler. Either it can do nothing and leaves the line, or
`desk_of_work` says what is seen of its step, and the rank of the pool goes down. -/
theorem turn_work {old : Pool.Stage} (h : b.Manned backoff handler capacity) (hmem : .worker 0 ∈ b.ready)
    (hw : b.state.pool.workers[0]? = some old) (hhand : ∀ a, old ≠ .handling a) (hclean : Clean b.state.flight.log)
    (hlater : Clean (b.turn (.worker 0)).state.flight.log) :
    Manned backoff handler capacity (b.turn (.worker 0)) ∧
      Bench.Follows handler State.desk rank b (b.turn (.worker 0)) := by
  obtain ⟨accepted, recorded, hinline⟩ := h.reached.inLine h.setup hclean
  have hwork : (machine ω).step b.now (.worker 0) b.state = (rig ω).work b.now 0 b.state := by
    simp only [machine, State.step, hw]
    cases old with
    | handling a => exact absurd rfl (hhand a)
    | _ => rfl
  cases hact : b.state.pool.act b.state.setup (b.state.flight.clocks b.now) (.work 0) with
  | none =>
    rw [Rig.work_of_none hact] at hwork
    refine (h.turn_wait hmem hwork (fun _ => ?_) (h.worker_not_mem_awake hact)).imp_right .inl
    simp only [Pool.act, Pool.work, hw] at hact
    cases old with
    | asking => exact .inr (.inr (by simpa using hact))
    | exited => exact .inr (.inl (hinline.workers_eq hw).1)
    | handling a => exact absurd rfl (hhand a)
    | holding | counting | retrying | settled | releasing => cases hact
  | some change =>
    obtain ⟨pool, notices⟩ := change
    have hquiet : started notices = [] := by
      cases Pool.step_of_act hact with
      | retryDelayed hw => exact (hinline.isFinal hw).elim
      | _ => rfl
    rw [Rig.work_of_act hact] at hwork
    dsimp only at hwork
    rw [hquiet] at hwork
    have hlog := Flight.log_callIfBegun (b.state.flight.note b.now notices) b.state.handler 0 notices
    obtain ⟨hmanned, hoffice⟩ := h.goOn hmem hwork h.setup h.handler ((h.reached.act hact).setFlight hlog)
    have hrank : Prod.Lex (· < ·) (· < ·) (rank (b.turn (.worker 0))) (rank b) := by
      rw [Bench.turn_of_goOn hwork]
      exact .left _ _ (hinline.rank_lt_of_work (congrArg _ h.setup) hact false)
    rw [Bench.turn_of_goOn hwork] at hlater
    refine ⟨hmanned, ?_⟩
    rcases desk_of_work (b.alarms.head?.map Prod.fst) h.reached h.setup hclean hact (hlog ▸ hlater) with hsame | hnext
    · exact .inl ⟨hoffice.trans (congrArg (fun desk => { b.office State.desk with desk }) hsame), hrank⟩
    · refine .inr ?_
      rw [hoffice, ← h.handler]
      exact hnext

/-- The handler triggers a key. In a log that stays clean the trigger is not refused, and its key is
not in line yet, so it is put at the end. -/
theorem turn_trigger {flight : Flight ω} {key : Key} {kind : Trigger} (h : b.Manned backoff handler capacity)
    (hmem : .worker 0 ∈ b.ready) (hlogged : flight.log = b.state.flight.log)
    (hstep : (machine ω).step b.now (.worker 0) b.state =
      (rig ω).actThen b.now { b.state with flight } (.trigger key kind) .goOn)
    (hlater : Clean (b.turn (.worker 0)).state.flight.log) :
    Manned backoff handler capacity (b.turn (.worker 0)) ∧
      (b.turn (.worker 0)).office State.desk = (b.office State.desk).moved a flight (.trigger key kind) := by
  have hreached : State.Reached capacity { b.state with flight } := h.reached.setFlight hlogged
  cases hact : b.state.pool.act b.state.setup (flight.clocks b.now) (.trigger key kind) with
  | none => cases hact
  | some change =>
    obtain ⟨pool, notices⟩ := change
    rw [Rig.actThen_of_act hact] at hstep
    have hnoted : Clean (flight.note b.now notices).log := by
      rw [Bench.turn_of_goOn hstep] at hlater
      exact hlater
    obtain ⟨rfl, rfl, hline⟩ := hreached.line_trigger h.setup hact hnoted
    obtain ⟨hmanned, hoffice⟩ := h.goOn hmem hstep h.setup h.handler (hreached.act hact)
    refine ⟨hmanned, hoffice.trans ?_⟩
    simp only [Office.moved, Bench.office, State.desk, hline]
    rfl

/-- The handler has come to its end. -/
theorem turn_finish {flight : Flight ω} {result : Result} (h : b.Manned backoff handler capacity)
    (hmem : .worker 0 ∈ b.ready) (hold : b.state.pool.workers = [.handling a])
    (hlogged : flight.log = b.state.flight.log)
    (hstep : (machine ω).step b.now (.worker 0) b.state =
      (rig ω).actThen b.now { b.state with flight } (.finish 0 result) .goOn) :
    Manned backoff handler capacity (b.turn (.worker 0)) ∧
      (b.turn (.worker 0)).office State.desk = (b.office State.desk).moved a flight (.finish result) := by
  have hreached : State.Reached capacity { b.state with flight } := h.reached.setFlight hlogged
  have hw : b.state.pool.workers[0]? = some (.handling a) := by rw [hold]; rfl
  cases hact : b.state.pool.act b.state.setup (flight.clocks b.now) (.finish 0 result) with
  | none =>
    simp only [Pool.act, hw] at hact
    cases hact
  | some change =>
    obtain ⟨pool, notices⟩ := change
    have hnext := hreached.act hact
    rw [Rig.actThen_of_act hact] at hstep
    cases Pool.step_of_act hact with
    | succeeded hw' hr | failed hw' hr =>
      obtain rfl := Pool.Stage.handling.inj (Option.some.inj (hw.symm.trans hw'))
      obtain ⟨hmanned, hoffice⟩ := h.goOn hmem hstep h.setup h.handler hnext
      refine ⟨hmanned, hoffice.trans ?_⟩
      simp only [Office.moved, Bench.office, State.desk, Pool.hand, hold, Pool.moveTo, Serial.outcome, hr]
      rfl

/-- The handler of the worker moves on. -/
theorem turn_handling (h : b.Manned backoff handler capacity) (hmem : .worker 0 ∈ b.ready)
    (hold : b.state.pool.workers = [.handling a]) (hlater : Clean (b.turn (.worker 0)).state.flight.log) :
    Manned backoff handler capacity (b.turn (.worker 0)) ∧
      (b.turn (.worker 0)).office State.desk = (b.office State.desk).handle a := by
  have hw : b.state.pool.workers[0]? = some (.handling a) := by rw [hold]; rfl
  have hstep : (machine ω).step b.now (.worker 0) b.state = (rig ω).handle b.now 0 b.state := by
    simp only [machine, State.step, hw]
  have hhandle : (b.office State.desk).handle a = (b.office State.desk).moved a (b.state.flight.move b.now 0).2
    (b.state.flight.move b.now 0).1 := rfl
  have hlogged := b.state.flight.log_move b.now 0
  have hwakes := b.state.flight.now_lt_of_move b.now 0
  rw [hhandle]
  unfold Rig.handle at hstep
  generalize b.state.flight.move b.now 0 = moved at hstep hlogged hwakes ⊢
  obtain ⟨move, flight⟩ := moved
  have hreached : State.Reached capacity { b.state with flight } := h.reached.setFlight hlogged
  cases move with
  | trigger key kind => exact h.turn_trigger hmem hlogged hstep hlater
  | sleepUntil moment =>
    have hlt : b.now < moment := hwakes moment rfl
    rw [Bench.turn_of_sleepUntil hstep, h.alarms_eq_nil hmem]
    refine ⟨.modify_asleep h.setup h.handler hreached (h.nodup.erase _) (fun key m hin => ?_) rfl hlt hold ?_, rfl⟩
    · exact h.untimed key m (List.mem_of_mem_erase hin)
    · exact h.nodup.not_mem_erase
  | goOn => exact h.goOn hmem hstep h.setup h.handler hreached
  | finish result => exact h.turn_finish hmem hold hlogged hstep

/-- Whatever task takes its turn, it does what is next at the desk, or nothing that can be seen
there. -/
theorem turn {task : Task} (h : b.Manned backoff handler capacity) (hmem : task ∈ b.ready)
    (hclean : Clean b.state.flight.log) (hlater : Clean (b.turn task).state.flight.log) :
    Manned backoff handler capacity (b.turn task) ∧ Bench.Follows handler State.desk rank b (b.turn task) := by
  cases task with
  | timer key m => exact absurd hmem (h.untimed key m)
  | resync => exact (h.turn_resync hmem).imp_right .inl
  | supervisor => exact (h.turn_supervisor hmem hclean).imp_right .inl
  | worker i =>
    cases hw : b.state.pool.workers[i]? with
    | none => exact (h.turn_nobody hmem hw).imp_right .inl
    | some old =>
      obtain ⟨accepted, recorded, hinline⟩ := h.reached.inLine h.setup hclean
      obtain rfl := hinline.index_eq hw
      cases old with
      | handling a =>
        obtain ⟨hmanned, hoffice⟩ := h.turn_handling hmem (hinline.workers_eq hw).1 hlater
        refine ⟨hmanned, .inr ?_⟩
        rw [hoffice]
        simp only [Office.next?, Bench.office, State.desk, Pool.hand, (hinline.workers_eq hw).1, h.alarms_eq_nil hmem]
        rfl
      | asking | holding | counting | retrying | settled | releasing | exited =>
        exact h.turn_work hmem hw (by simp) hclean hlater

/-! ## Rest -/

/-- When all tasks rest nothing is left to do at the desk, and the pool has come as far as the desk
says: its supervisor can not move on, and its worker has nothing to do. -/
theorem rest (h : b.Manned backoff handler capacity) (hr : b.ready = []) :
    (b.office State.desk).next? handler = none ∧ b.state.phase = b.state.desk.restPhase := by
  have hrest : (b.state.pool.supervise (b.state.flight.clocks b.now)).isSome = false := by
    refine Bool.eq_false_iff.mpr fun hsome => ?_
    have hact : ((rig ω).act? b.now b.state .supervise).isSome := by
      rw [Rig.act?, Option.isSome_map]
      exact hsome
    have hmem : .supervisor ∈ b.ready := h.roused b.now (by simp [machine, State.awake, hact])
    rw [hr] at hmem
    cases hmem
  rcases h.alarms with hnone | ⟨t, a, halarm, -, hworkers, -⟩
  · have hwaits := h.attends hnone (by rw [hr]; exact List.not_mem_nil)
    obtain ⟨steps, hrun⟩ := h.reached
    rcases Pool.rest_of_run (congrArg _ h.setup) (congrArg _ h.setup) hrun hwaits hrest with
      ⟨hworkers, hphase⟩ | ⟨hhand, hline, hphase⟩
    · have hhand : b.state.pool.hand = .absent := by rw [Pool.hand, hworkers]; rfl
      simp [Office.next?, Desk.restPhase, Bench.office, State.desk, State.phase, hhand, hphase]
    · simp [Office.next?, Desk.restPhase, Bench.office, State.desk, State.phase, hhand, hline, hphase]
  · have hstage : b.state.pool.workers[0]? = some (.handling a) := by rw [hworkers]; rfl
    have hhand : b.state.pool.hand = .handling a := by rw [Pool.hand, hworkers]; rfl
    have hphase : b.state.pool.phase = .running := by
      cases hp : b.state.pool.phase with
      | idle => exact absurd hp (h.reached.sound.phase_ne_idle hstage)
      | running => rfl
      | stopped =>
        have hexited := h.reached.sound.exited_of_stopped hp _ (List.mem_of_getElem? hstage)
        cases hexited
    simp [Office.next?, Desk.restPhase, Bench.office, State.desk, State.phase, hhand, halarm, hphase]

/-- Time passes up to a moment before the alarm. -/
theorem still {target : Moment} (h : b.Manned backoff handler capacity)
    (hlate : ∀ alarm ∈ b.alarms.head?, ¬(b.now < alarm.1 ∧ alarm.1 ≤ target)) :
    Manned backoff handler capacity { b with now := max b.now target } := by
  refine ⟨h.setup, h.handler, h.reached, h.nodup, h.untimed, h.alarms.imp_right ?_, h.attends, h.roused⟩
  rintro ⟨t, a, halarm, hlt, hrest⟩
  exact ⟨t, a, halarm, Bench.max_lt_of_late halarm hlt hlate, hrest⟩

/-- The alarm goes off, and the worker is alone in the line: the others have nothing to do. -/
theorem wake {alarm : Moment × Task} (h : b.Manned backoff handler capacity) (hr : b.ready = [])
    (ha : alarm ∈ b.alarms.head?) :
    Manned backoff handler capacity (b.jump alarm.1) ∧ (b.jump alarm.1).alarms = [] := by
  rcases h.alarms with hnone | ⟨t, a, halarm, -⟩
  · rw [hnone] at ha
    cases ha
  · rw [halarm] at ha
    cases ha
    rw [Bench.jump_of_alarm hr halarm]
    refine ⟨⟨h.setup, h.handler, h.reached, List.nodup_singleton _, by simp, .inl rfl, ?_, fun now => ?_⟩, rfl⟩
    · simp
    · have hnobody := h.roused now
      rw [hr] at hnobody
      exact List.Subset.trans hnobody (List.nil_subset _)

end Manned

/-! ## Requests -/

namespace Manned

theorem stayAsked (h : b.Manned backoff handler capacity) (hs : s.setup = lone backoff) (hh : s.handler = handler)
    (hr : s.Reached capacity) (hworkers : s.pool.workers = b.state.pool.workers)
    (hbell : s.pool.queue.bell.holders.Perm b.state.pool.queue.bell.holders) :
    Manned backoff handler capacity (b.modify s []) :=
  h.stay hs hh hr h.nodup (List.Subset.refl _) id hworkers hbell

/-- Only the first time the pool is run counts. -/
theorem ask_run (h : b.Manned backoff handler capacity) :
    Manned backoff handler capacity (b.ask .run) ∧
      (b.ask .run).office State.desk = { b.office State.desk with desk := b.state.desk.ask b.now .run } ∧
      (b.ask .run).state.phase = b.state.phase.ask .run := by
  have hsound := h.reached.sound
  by_cases hi : b.state.pool.phase = .idle
  · have hact : b.state.pool.act b.state.setup (b.state.flight.clocks b.now) .run =
        some (b.state.pool.start b.state.setup (b.state.flight.clocks b.now), []) := if_pos hi
    have htasks : (rig ω).crew b.state = [.worker 0, .resync, .supervisor] := by
      simp only [h.setup]
      rfl
    have hask : b.ask .run = _ := Rig.request_of_act (r := rig ω) (b := b) (a := .run) hact
    have hworkers := (hsound.idle hi).1
    have halarms : b.alarms = [] := by
      rcases h.alarms with hnone | ⟨t, a, -, -, hstage, -⟩
      · exact hnone
      · cases hworkers.symm.trans hstage
    rw [hask, htasks]
    refine ⟨.modify h.setup h.handler (h.reached.act hact) h.nodup ?_ halarms (.inl ?_), ?_, (if_pos hi).symm⟩
    · simpa [started] using h.untimed
    · simp
    · have hhand : b.state.pool.hand = .absent := by rw [Pool.hand, hworkers]; rfl
      have hfree : (b.state.pool.start b.state.setup (b.state.flight.clocks b.now)).hand = .free := by
        rw [Pool.hand, Pool.start, h.setup]
        rfl
      simp only [Desk.ask, State.desk, hhand, hfree, Bench.office, Bench.modify]
      rfl
  · have hact : b.state.pool.act b.state.setup (b.state.flight.clocks b.now) .run = none := if_neg hi
    have hask : b.ask .run = b.modify b.state [] := Rig.request_of_none (r := rig ω) (b := b) (a := .run) hact
    rw [hask]
    refine ⟨h.stayAsked h.setup h.handler h.reached rfl (.refl _), ?_, (if_neg hi).symm⟩
    have hlength := hsound.length_workers hi
    rw [h.setup] at hlength
    obtain ⟨stage, hworkers⟩ := List.length_eq_one_iff.mp hlength
    have hhand : b.state.pool.hand = stage.hand := by rw [Pool.hand, hworkers]; rfl
    cases stage <;> simp only [Desk.ask, State.desk, hhand, Bench.office, Bench.modify] <;> rfl

theorem ask {request : Request} (h : b.Manned backoff handler capacity)
    (hclean : Clean (b.ask request).state.desk.flight.log) :
    Manned backoff handler capacity (b.ask request) ∧
      (b.ask request).office State.desk = { b.office State.desk with desk := b.state.desk.ask b.now request } ∧
      (b.ask request).state.phase = b.state.phase.ask request := by
  cases request with
  | run => exact h.ask_run
  | stop =>
    have hact : b.state.pool.act b.state.setup (b.state.flight.clocks b.now) .stop =
      some ({ b.state.pool with stopRequested := true }, []) := rfl
    have hask : b.ask .stop = _ := Rig.request_of_act (r := rig ω) (b := b) (a := .stop) hact
    rw [hask]
    exact ⟨h.stayAsked h.setup h.handler (h.reached.act hact) rfl (.refl _), rfl, rfl⟩
  | trigger key kind =>
    cases hact : b.state.pool.act b.state.setup (b.state.flight.clocks b.now) (.trigger key kind) with
    | none => cases hact
    | some change =>
      obtain ⟨pool, notices⟩ := change
      have hask : b.ask (.trigger key kind) = _ :=
        Rig.request_of_act (r := rig ω) (b := b) (a := .trigger key kind) hact
      have hreached := h.reached.act hact
      have hperm := Pool.perm_holders_of_act h.reached.sound (by simp) hact
      rw [hask] at hclean ⊢
      obtain ⟨rfl, rfl, hline⟩ := h.reached.line_trigger h.setup hact hclean
      refine ⟨h.stayAsked h.setup h.handler hreached rfl hperm, ?_, rfl⟩
      simp only [Desk.ask, State.desk, Bench.office, Bench.modify, hline]
      rfl
  | advanceClock span =>
    exact ⟨h.stayAsked h.setup h.handler (h.reached.setFlight rfl) rfl (.refl _), rfl, rfl⟩

end Manned

/-! ## The log grows -/

theorem log_resync (now : Moment) (s : State ω) : s.flight.log <:+ (s.resync now).state.flight.log := by
  unfold State.resync
  split
  · next hact => exact Rig.log_act? (r := rig ω) hact
  · split
    · exact (rig ω).log_actThen ..
    · split
      · exact (rig ω).log_actThen ..
      · exact List.suffix_rfl
    · exact List.suffix_rfl
    · exact List.suffix_rfl

/-- Nothing is struck from the log by any task. -/
theorem log_step (now : Moment) (task : Task) (s : State ω) : s.flight.log <:+ (s.step now task).state.flight.log := by
  cases task with
  | worker i =>
    simp only [State.step]
    split
    · exact (rig ω).log_handle now i s
    · exact (rig ω).log_work now i s
  | timer key deadline =>
    simp only [State.step]
    split
    · exact List.suffix_rfl
    · exact (rig ω).log_actThen ..
  | resync => exact log_resync now s
  | supervisor => exact (rig ω).log_actThen ..

/-- A pool with one worker that forgives no failure and has no resync does what is done at a
desk. -/
theorem refines (backoff : Backoff) (handler : Handler ω) (capacity : Nat) :
    Bench.Refines handler ask State.desk State.phase Clean (Manned backoff handler capacity) rank where
  fair := Clean.of_suffix
  grows := log_step
  grows_ask := (rig ω).log_ask
  turn {b task} h hmem hlater := h.turn hmem (hlater.of_suffix (log_step b.now task b.state)) hlater
  rest h hr := h.rest hr
  still h _ hlate := h.still hlate
  wake h hr ha := h.wake hr ha
  ask h hclean := h.ask hclean

/-- A pool that has not run has no tasks yet. -/
theorem manned_create (backoff : Backoff) (handler : Handler ω) (source : ω → List Key) (capacity : Nat) (world : ω)
    (wall : Timestamp) :
    Manned backoff handler capacity (create (lone backoff) handler source capacity world wall) where
  setup := rfl
  handler := rfl
  reached := ⟨[], rfl⟩
  nodup := List.nodup_nil
  untimed _ _ := List.not_mem_nil
  alarms := .inl rfl
  attends _ _ := .inl rfl
  roused _ := List.nil_subset _

end PoolBench

end ControlLoop
