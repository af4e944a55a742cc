import ControlLoop.Proofs.Pool.Accounts
import ControlLoop.Proofs.Pool.Delivery

/-!
# Stop closes every account

When a pool has stopped it owes nothing to anybody: no key waits, is held, marked or delayed, no
account is open and no kind is kept (`Pool.Cleared`), and the last record of each key says that the
key succeeded or was dropped. What comes after is in vain: a trigger is refused, a timer finds
nothing to do, and nobody makes a record.

The order in which a pool ends is part of `Pool.Sound`; here it is completed by what ends beside the
workers (`Pool.WindingUp`). Nothing of it depends on the moment at which the signal to stop is
given.

The promise has two parts: what a stopped pool is like (`cleared_of_stopped`), and that nothing more
comes of it (`run_of_stopped`). `stop_closes_every_account` has both.
-/

namespace ControlLoop.Pool

variable {setup : Setup} {clocks : Clocks} {p q : Pool} {a : Action} {notices : List Notice}

/-! ## The end of a pool

`Pool.Sound` says in which order the queue, the workers and the accounts of a pool end. `WindingUp`
adds what ends beside them: the resync, for which the supervisor waits before it shuts the queue,
and the kinds, which it forgets last. -/

/-- What has ended when the supervisor has come so far: the resync when the queue is shut, and with
the last account it has been forgotten what sets a delivery off. -/
structure WindingUp (p : Pool) : Prop where
  /-- the resync ends before the queue is shut -/
  resync : p.supervisor.hasShut = true → ∀ next left, p.resync ≠ .ticking next left
  /-- the kinds are forgotten when all accounts have been closed -/
  kinds : p.supervisor.hasDrained = true → p.kinds = ∅

theorem Supervisor.hasShut_of_hasDrained {s : Supervisor} (h : s.hasDrained = true) : s.hasShut = true := by
  cases s <;> first | rfl | cases h

theorem WindingUp.of_not_shut (h : p.supervisor.hasShut = false) : p.WindingUp where
  resync hs := absurd hs (by simp [h])
  kinds hd := absurd (Supervisor.hasShut_of_hasDrained hd) (by simp [h])

/-- Every step keeps to the order in which a pool ends. -/
theorem windingUp_of_act (h : p.WindingUp) (hp : p.Sound setup) (hact : p.act setup clocks a = some (q, notices)) :
    q.WindingUp := by
  -- while a worker has not left, the accounts have not all been closed
  have hbusy : ∀ {i : Nat} {s : Stage}, p.workers[i]? = some s → s ≠ .exited → p.supervisor.hasDrained ≠ true :=
    fun hw hne hd => hne (hp.exited hd _ (List.mem_of_getElem? hw))
  cases step_of_act hact with
  | accepted ho | put ho => exact .of_not_shut (hp.closed_eq.symm.trans ho)
  | ticked hr | putLate _ hr => exact ⟨fun hs => absurd hr (h.resync hs _ _), h.kinds⟩
  | started => exact .of_not_shut rfl
  | took hw | kept hw => exact ⟨h.resync, fun hd => absurd hd (hbusy hw (by simp))⟩
  | resyncEnded => exact ⟨fun _ _ _ => by simp, h.kinds⟩
  | heard => exact .of_not_shut rfl
  | shut hs hr => exact ⟨fun _ => hr, fun hd => by cases hd⟩
  | passedOver hs | closedOut hs => exact ⟨fun _ => h.resync (by rw [hs]; rfl), fun hd => by cases hd⟩
  | forgot hs => exact ⟨fun _ => h.resync (by rw [hs]; rfl), fun _ => rfl⟩
  | stopped hs => exact ⟨fun _ => h.resync (by rw [hs]; rfl), fun _ => h.kinds (by rw [hs]; rfl)⟩
  | _ => exact ⟨h.resync, h.kinds⟩

/-- Along every run what has to have ended before the supervisor came so far has ended. -/
theorem windingUp_of_run {capacity : Nat} {steps : List (Clocks × Action)} {log : Log}
    (h : run setup (fresh capacity) steps = some (p, log)) : p.WindingUp := by
  have hkeeps := run_keeps (fun p => p.Sound setup ∧ p.WindingUp)
    (fun hp hact => ⟨sound_of_act hp.1 hact, windingUp_of_act hp.2 hp.1 hact⟩)
    ⟨sound_fresh setup capacity, .of_not_shut rfl⟩ h
  exact hkeeps.2

/-! ## The signal to stop

The signal comes from outside (`stopRequested_of_act`), and a supervisor that has gone on has been
given it (`Heeds`). So a pool that is not told to stop never shuts its queue (`Heeds.running`). -/

/-- The supervisor waits for the signal to stop, if it runs at all, or the signal has been given. So
a pool that is never told to stop never begins to. -/
def Heeds (p : Pool) : Prop := p.supervisor = .absent ∨ p.supervisor = .listening ∨ p.stopRequested = true

/-- The pool does not give the signal itself. -/
theorem stopRequested_of_act (ha : a ≠ .stop) (hact : p.act setup clocks a = some (q, notices)) :
    q.stopRequested = p.stopRequested := by
  cases step_of_act hact with
  | stopRequested => exact absurd rfl ha
  | _ => rfl

/-- Only the supervisor moves on, once the pool runs. -/
theorem supervisor_of_act (ha : a ≠ .supervise) (hact : p.act setup clocks a = some (q, notices)) :
    q.supervisor = p.supervisor ∨ q.supervisor = .listening := by
  cases step_of_act hact with
  | started => exact .inr rfl
  | heard | shut | passedOver | closedOut | forgot | stopped => exact absurd rfl ha
  | _ => exact .inl rfl

/-- Every step keeps the supervisor heedful: it passes on from `listening` only when the signal has
been given. -/
theorem heeds_of_act (h : p.Heeds) (hact : p.act setup clocks a = some (q, notices)) : q.Heeds := by
  by_cases ha : a = .stop
  · subst ha
    cases hact
    exact .inr (.inr rfl)
  have hsame := stopRequested_of_act ha hact
  by_cases hs : a = .supervise
  · subst hs
    rcases h with habsent | hlistening | hrequested
    · simp only [act, supervise, habsent] at hact
      cases hact
    · -- it moves on only when the signal has been given
      simp only [act, supervise, hlistening, Option.ite_none_right_eq_some] at hact
      exact .inr (.inr (hsame.trans hact.1))
    · exact .inr (.inr (hsame.trans hrequested))
  · rcases supervisor_of_act hs hact with heq | hlistening
    · exact h.imp heq.trans (.imp heq.trans hsame.trans)
    · exact .inr (.inl hlistening)

/-- A pool that has not been told to stop has neither shut its queue nor stopped. -/
theorem Heeds.running (h : p.Heeds) (hp : p.Sound setup) (hr : p.stopRequested = false) :
    p.queue.closed = false ∧ p.phase ≠ .stopped := by
  rcases h with hs | hs | hrequested
  · exact ⟨hp.closed_eq.trans (congrArg _ hs), fun hstop => by simp [hp.stopped hstop] at hs⟩
  · exact ⟨hp.closed_eq.trans (congrArg _ hs), fun hstop => by simp [hp.stopped hstop] at hs⟩
  · rw [hr] at hrequested
    cases hrequested

/-! ## A pool that has stopped

A pool that has stopped has a supervisor that has finished, so all clauses of `Sound`, `WindingUp`
and `Minded` that speak of how far the supervisor has come apply to it. That the last record of a
key is not a failure to be repeated is read off the law of its records: such a failure would leave
its account open. -/

/-- Nothing is left to be done: no key waits or is handed out or marked, none is delayed, no account
is open, and nothing is noted for a next delivery. -/
structure Cleared (p : Pool) : Prop where
  /-- no key waits -/
  pending : p.queue.pending = []
  /-- no key is handed out -/
  processing : p.queue.processing = ∅
  /-- no key is marked -/
  dirty : p.queue.dirty = ∅
  /-- no key is delayed -/
  delayed : p.queue.delayed = ∅
  /-- no account is open -/
  accounts : p.accounts = ∅
  /-- it is not kept what sets a delivery off -/
  kinds : p.kinds = ∅

/-- When a pool has stopped no account is open: the supervisor had to close the last of them before
it ended. -/
theorem Minded.account_eq_none_of_stopped (h : p.Minded) (hp : p.Sound setup) (hw : 1 ≤ setup.workers)
    (hs : p.phase = .stopped) (key : Key) : p.accounts[key]? = none := by
  refine h.account_eq_none hp (hp.closed_of_stopped hs) ?_ (hp.workers_ne_nil hw (by simp [hs]))
    (hp.exited_of_stopped hs) key
  rw [hp.stopped hs]
  rfl

/-- A stopped pool is cleared: the workers have left an empty queue, a queue that is shut delays
nothing, no account is open, and the kinds were forgotten. -/
theorem cleared_of_stopped (hp : p.Sound setup) (hm : p.Minded) (hwind : p.WindingUp) (hw : 1 ≤ setup.workers)
    (hs : p.phase = .stopped) : p.Cleared := by
  have hexited := hp.exited_of_stopped hs
  have hfree : ∀ key, key ∉ p.queue.processing := by
    intro key
    rw [hp.mem_processing, mem_held]
    rintro ⟨s, hmem, hk⟩
    rw [hexited s hmem] at hk
    cases hk
  exact {
    pending := hp.drained (hp.workers_ne_nil hw (by simp [hs])) hexited
    processing := Std.ExtTreeSet.eq_empty_iff_forall_not_mem.mpr hfree
    dirty := Std.ExtTreeSet.eq_empty_iff_forall_not_mem.mpr fun key hd => hfree key (hp.queue.mem_processing key hd)
    delayed := by
      refine Std.ExtTreeMap.ext_getElem? fun key => ?_
      rw [hp.queue.delayed_eq_none (hp.closed_of_stopped hs) key, Std.ExtTreeMap.getElem?_empty]
    accounts := by
      refine Std.ExtTreeMap.ext_getElem? fun key => ?_
      rw [hm.account_eq_none_of_stopped hp hw hs key, Std.ExtTreeMap.getElem?_empty]
    kinds := hwind.kinds (by rw [hp.stopped hs]; rfl) }

/-- After a record that leaves no account open the key has succeeded or was dropped. -/
theorem outcome_of_expectedCount {records : List Record} {r : Record} (h : expectedCount records = 0)
    (hr : records.getLast? = some r) : r.outcome = .success ∨ ∃ e, r.outcome = .failureFinal e := by
  rw [expectedCount, hr] at h
  cases ho : r.outcome with
  | success => exact .inl rfl
  | failureFinal e => exact .inr ⟨e, rfl⟩
  | failure e => simp [Record.nextRetryCount, Outcome.nextRetryCount, ho] at h

/-! ## After the end

In a stopped pool all workers have left, the resync has ended and the supervisor has finished, which
leaves a trigger, a timer and the signal to stop as the only steps. None of them changes anything
that such a step depends on, so the induction over the run carries the pool itself, up to its timers
and the signal. -/

/-- Of a pool that has stopped, a step only refuses a trigger, takes down a timer that finds nothing
to do, or notes the signal to stop once more. -/
theorem act_of_stopped (hp : p.Sound setup) (hwind : p.WindingUp) (hs : p.phase = .stopped)
    (hact : p.act setup clocks a = some (q, notices)) :
    (∀ n ∈ notices, ∃ key, n = .refused key) ∧
      q = { p with queue := { p.queue with timers := q.queue.timers }, stopRequested := q.stopRequested } := by
  have hc := hp.closed_of_stopped hs
  have hsup := hp.stopped hs
  have hexited := hp.exited_of_stopped hs
  cases step_of_act hact with
  | refused => exact ⟨List.forall_mem_singleton.mpr ⟨_, rfl⟩, rfl⟩
  | stopRequested => exact ⟨by simp, rfl⟩
  | lapsed hm =>
    rw [Queue.fire_of_not_delayed hm]
    exact ⟨by simp, rfl⟩
  | accepted ho | put ho =>
    rw [hc] at ho
    cases ho
  | started hi =>
    rw [hs] at hi
    cases hi
  | fired ht hm =>
    rw [hp.queue.delayed_eq_none hc] at hm
    cases hm
  | ticked hr | putLate _ hr | resyncEnded hr => exact absurd hr (hwind.resync (by rw [hsup]; rfl) _ _)
  | heard hs | shut hs | passedOver hs | closedOut hs | forgot hs | stopped hs =>
    rw [hsup] at hs
    cases hs
  | took hw | left hw | waited hw | released hw | began hw | succeeded hw | failed hw | dropped hw | kept hw
  | retriedAtOnce hw | retryCovered hw | retryDelayed hw | retryRefused hw | recorded hw =>
    cases hexited _ (List.mem_of_getElem? hw)

/-- Whatever happens to a stopped pool, the log only tells of triggers that are refused, and the
pool only loses timers and notes signals to stop. -/
theorem run_of_stopped {steps : List (Clocks × Action)} {log : Log} (hp : p.Sound setup) (hwind : p.WindingUp)
    (hs : p.phase = .stopped) (h : run setup p steps = some (q, log)) :
    (∀ e ∈ log, ∃ key, e.2 = .refused key) ∧
      q = { p with queue := { p.queue with timers := q.queue.timers }, stopRequested := q.stopRequested } := by
  induction steps generalizing p log with
  | nil =>
    cases h
    exact ⟨by simp, rfl⟩
  | cons step steps ih =>
    obtain ⟨clocks, a⟩ := step
    obtain ⟨p', notices, later, hact, hrun, rfl⟩ := run_cons_eq_some.mp h
    obtain ⟨hrefused, heq⟩ := act_of_stopped hp hwind hs hact
    have hs' : p'.phase = .stopped := by
      rw [heq]
      exact hs
    obtain ⟨hlater, heq'⟩ := ih (sound_of_act hp hact) (windingUp_of_act hwind hp hact) hs' hrun
    refine ⟨fun e he => ?_, ?_⟩
    · rcases List.mem_append.mp he with he | he
      · obtain ⟨n, hn, rfl⟩ := List.mem_map.mp he
        exact hrefused n hn
      · exact hlater e he
    · rw [heq] at heq'
      exact heq'

/-- Refused triggers are no records. -/
theorem records_of_refused {log : Log} (h : ∀ e ∈ log, ∃ key, e.2 = .refused key) : records log = [] := by
  rw [records, List.filterMap_eq_nil_iff]
  intro e he
  obtain ⟨key, hk⟩ := h e he
  rw [hk]
  rfl

/-- **Stop closes every account**: when a pool has stopped nothing is left to be done, no key counts
a failure, and the last record of each key is a success or says that it was dropped. Whatever
happens from then on, triggers are refused, no record is made, and nothing changes but that timers
go off and that the signal to stop may be given again. -/
theorem stop_closes_every_account {capacity : Nat} {steps : List (Clocks × Action)} {log : Log}
    (hw : 1 ≤ setup.workers) (h : run setup (fresh capacity) steps = some (p, log)) (hs : p.phase = .stopped) :
    p.Cleared ∧
      (∀ key, p.retryCount key = 0) ∧
      (∀ key r, (recordsOf key log).getLast? = some r → r.outcome = .success ∨ ∃ e, r.outcome = .failureFinal e) ∧
      ∀ more q later, run setup p more = some (q, later) →
        (∀ e ∈ later, ∃ key, e.2 = .refused key) ∧ records later = [] ∧
          q = { p with queue := { p.queue with timers := q.queue.timers }, stopRequested := q.stopRequested } := by
  have hp := sound_of_run h
  have hm := minded_of_run h
  have hwind := windingUp_of_run h
  have hnone := hm.account_eq_none_of_stopped hp hw hs
  have hcount : ∀ key, p.retryCount key = 0 := fun key => by rw [retryCount, hnone key]
  refine ⟨cleared_of_stopped hp hm hwind hw hs, hcount, fun key r hr => ?_, fun more q later hrun => ?_⟩
  · refine outcome_of_expectedCount ?_ hr
    have hfree : ∀ stage again, (p.standing key).place ≠ .held stage again := by
      intro stage again
      rw [standing, hp.resting_of_stopped hw hs key]
      simp
    rw [← (tally_of_run h key).free hfree]
    exact hcount key
  · obtain ⟨hrefused, heq⟩ := run_of_stopped hp hwind hs hrun
    exact ⟨hrefused, records_of_refused hrefused, heq⟩

/-- A key fails, and the pool stops before the retry. Its account is closed with a record; then the
timer of the retry goes off, and the key is triggered again. -/
theorem stop_closes_every_account_before_retry :
    ∃ p log q later, run ⟨1, 1, .fixed (Span.ofMillis 100), none⟩ (fresh 10) (allAt ⟨0, .epoch⟩
        [.run, .trigger "a" .manual, .work 0, .work 0, .finish 0 (.failure ⟨"down"⟩), .work 0, .work 0, .work 0,
          .work 0, .stop, .supervise, .supervise, .work 0, .supervise, .supervise, .supervise]) = some (p, log) ∧
      p.phase = .stopped ∧ p.Cleared ∧
      (recordsOf "a" log).map (fun r => (r.retryCount, r.outcome)) = [(0, .failure "down"), (1, .failureFinal "down")] ∧
      run ⟨1, 1, .fixed (Span.ofMillis 100), none⟩ p (allAt ⟨10 ^ 8, .epoch⟩
        [.fire "a" (10 ^ 8), .trigger "a" .manual]) = some (q, later) ∧
      later.length = 1 ∧ records later = [] := by
  generalize hr : run _ _ _ = r
  have hseen : r.map (fun r => (r.1.phase, (recordsOf "a" r.2).map fun r => (r.retryCount, r.outcome))) =
      some (.stopped, [(0, .failure "down"), (1, .failureFinal "down")]) := by
    rw [← hr]
    decide +kernel
  have hmore : (r.bind fun r => run ⟨1, 1, .fixed (Span.ofMillis 100), none⟩ r.1 (allAt ⟨10 ^ 8, .epoch⟩
      [.fire "a" (10 ^ 8), .trigger "a" .manual])).map (fun r => r.2.length) = some 1 := by
    rw [← hr]
    decide +kernel
  obtain ⟨⟨p, log⟩, rfl, hmap⟩ := Option.map_eq_some_iff.mp hseen
  obtain ⟨⟨q, later⟩, hlater, hlen⟩ := Option.map_eq_some_iff.mp hmore
  simp only [Prod.mk.injEq] at hmap
  obtain ⟨hcleared, -, -, hafter⟩ := stop_closes_every_account (by decide) hr hmap.1
  exact ⟨p, log, q, later, rfl, hmap.1, hcleared, hmap.2, hlater, hlen, (hafter _ q later hlater).2.1⟩

end ControlLoop.Pool
