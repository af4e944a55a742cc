import ControlLoop.Proofs.Pool.InLine

/-!
# A pool that is told to stop drains

Once the signal to stop has been given, a pool does not get stuck before it has stopped: a handler
is running, or the pool can take a step by itself (`goes_on`). The supervisor waits for the resync,
which ends when it is told, and for the workers. None of these waits for the bell any more, as
everybody is called when the queue is shut (`Mobile.hushed`).

A pool with one worker, no retries and no key that comes twice gets nearer to its end with every
step that it takes by itself (`InLine.rank_lt`): it counts the stages that are left to the worker
for the key in hand and for each key that waits, and those that are left to the supervisor. So it
also cannot go on for ever.

The weights of `rank` follow from the stages. A key that waits counts for as many steps as a worker
takes with it, so that to take it is progress by the stage in which the worker has asked for it; and
a key that the resync has still to put in counts for more than one that waits, as it may call the
worker besides.
-/

namespace ControlLoop.Pool

/-- The steps that a pool takes by itself, once the resync ticks no more. -/
def Action.isRoutine : Action → Bool
  | .run | .work _ | .fire .. | .put _ | .endResync | .supervise => true
  | .trigger .. | .stop | .finish .. | .tick _ => false

/-- The keys that the resync has taken and not put in yet. -/
def Resync.left : Resync → List Key
  | ticking _ left => left
  | absent | ended => []

/-- No part of the pool is waiting for what will not come: nobody sleeps at the bell of a queue that
is shut, and a supervisor that has not begun or has ended belongs to a pool that has not run or has
stopped. -/
structure Mobile (p : Pool) : Prop where
  /-- a pool whose supervisor has not begun may begin to run -/
  started : p.supervisor = .absent → p.phase = .idle
  /-- the pool has stopped when the supervisor is done -/
  ended : p.supervisor = .finished → p.phase = .stopped
  /-- nobody waits for the bell of a queue that is shut -/
  hushed : p.queue.closed = true → p.queue.bell.waiting = []

variable {setup : Setup} {clocks : Clocks} {p q : Pool} {a : Action} {notices : List Notice}

theorem mobile_fresh (capacity : Nat) : (fresh capacity).Mobile := ⟨fun _ => rfl, nofun, nofun⟩

namespace Mobile

/-- The queue may change as long as it is not shut, and nobody goes to wait. -/
theorem setQueue (h : p.Mobile) (hs : q.supervisor = p.supervisor) (hphase : q.phase = p.phase)
    (hc : q.queue.closed = p.queue.closed) (hb : ∀ t ∈ q.queue.bell.waiting, t ∈ p.queue.bell.waiting) : q.Mobile where
  started hi := hphase.trans (h.started (hs ▸ hi))
  ended hf := hphase.trans (h.ended (hs ▸ hf))
  hushed hshut := by
    refine List.eq_nil_iff_forall_not_mem.mpr fun t ht => ?_
    have hmem := hb t ht
    rw [h.hushed (hc ▸ hshut)] at hmem
    cases hmem

/-- While the queue is open it does not matter who waits. -/
theorem of_open (h : p.Mobile) (hs : q.supervisor = p.supervisor) (hphase : q.phase = p.phase)
    (ho : q.queue.closed = false) : q.Mobile where
  started hi := hphase.trans (h.started (hs ▸ hi))
  ended hf := hphase.trans (h.ended (hs ▸ hf))
  hushed hshut := by
    rw [ho] at hshut
    cases hshut

end Mobile

/-- Every step keeps a pool mobile. Only the shutting of the queue could leave a worker waiting for
good, and it rings for all of them. -/
theorem mobile_of_act (h : p.Mobile) (hp : p.Sound setup) (hact : p.act setup clocks a = some (q, notices)) :
    q.Mobile := by
  cases step_of_act hact with
  | accepted ho | put ho => exact h.of_open rfl rfl ((Queue.insert_closed ..).trans ho)
  | refused | stopRequested | ticked | putLate | resyncEnded => exact h.setQueue rfl rfl rfl fun _ => id
  | started | heard | passedOver | closedOut | forgot => exact ⟨nofun, nofun, h.hushed⟩
  | waited _ _ _ ho => exact h.of_open rfl rfl ho
  | released => exact h.setQueue rfl rfl (Queue.done_closed ..) fun _ => Queue.mem_waiting_of_done
  | took | left | began | succeeded | failed | dropped | kept | retryCovered | retryRefused | recorded =>
    exact h.setQueue rfl rfl rfl fun _ => id
  | retriedAtOnce _ ho => exact h.of_open rfl rfl ((Queue.insert_closed ..).trans ho)
  | retryDelayed _ ho => exact h.of_open rfl rfl ho
  | fired _ hm => exact h.of_open rfl rfl ((Queue.fire_closed ..).trans (hp.queue.fire_of_delayed hm).1)
  | lapsed hm =>
    refine h.setQueue rfl rfl (Queue.fire_closed ..) fun t ht => ?_
    rw [Queue.fire_of_not_delayed hm] at ht
    exact ht
  | shut hs =>
    rw [Queue.shutDown_of_open (hp.open_of_endingResync hs)]
    exact ⟨nofun, nofun, fun _ => rfl⟩
  | stopped => exact ⟨nofun, fun _ => rfl, h.hushed⟩

/-- Only a tick leaves keys to be put in. -/
theorem left_of_act (ha : ∀ keys, a ≠ .tick keys) (hl : p.resync.left = [])
    (hact : p.act setup clocks a = some (q, notices)) : q.resync.left = [] := by
  cases step_of_act hact with
  | started =>
    simp only [start]
    cases setup.resync <;> rfl
  | ticked => exact absurd rfl (ha _)
  | put _ hr | putLate _ hr =>
    rw [hr] at hl
    cases hl
  | resyncEnded => rfl
  | _ => exact hl

/-- If no keys are left none is put in. -/
theorem not_put_of_left {key : Key} (hl : p.resync.left = []) : p.act setup clocks (.put key) ≠ some (q, notices) := by
  intro hact
  cases step_of_act hact with
  | put _ hr | putLate _ hr =>
    rw [hr] at hl
    cases hl

/-- A worker that has not left runs a handler or can move on, once the queue is shut. -/
theorem Mobile.worker_goes_on (h : p.Mobile) (setup : Setup) (clocks : Clocks) (hc : p.queue.closed = true)
    {i : Nat} {stage : Stage} (hw : p.workers[i]? = some stage) (he : stage ≠ .exited) :
    (∃ a, stage = .handling a) ∨ ∃ change, p.act setup clocks (.work i) = some change := by
  cases stage with
  | asking =>
    refine .inr ⟨p.ask i, ?_⟩
    simp only [act, work, hw, h.hushed hc]
    exact if_neg List.not_mem_nil
  | handling a => exact .inl ⟨a, rfl⟩
  | holding | counting | retrying | settled | releasing =>
    refine .inr ?_
    simp only [act, work, hw]
    exact ⟨_, rfl⟩
  | exited => exact absurd rfl he

/-- A pool that was told to stop runs a handler, or can take a step by itself, until it has
stopped. -/
theorem Mobile.goes_on (h : p.Mobile) (hp : p.Sound setup) (clocks : Clocks) (hstop : p.stopRequested = true)
    (hs : p.phase ≠ .stopped) :
    (∃ (i : Nat) (a : Attempt), p.workers[i]? = some (.handling a)) ∨
      ∃ a change, a.isRoutine = true ∧ p.act setup clocks a = some change := by
  -- at each of its stages the supervisor can move on, or it waits for somebody who can
  cases hsupervisor : p.supervisor with
  | absent => exact .inr ⟨.run, _, rfl, if_pos (h.started hsupervisor)⟩
  | listening =>
    refine .inr ⟨.supervise, ({ p with supervisor := .endingResync }, []), rfl, ?_⟩
    simp only [act, supervise, hsupervisor, hstop, if_true]
  | endingResync =>
    cases hresync : p.resync with
    | ticking due left =>
      cases left with
      | nil =>
        refine .inr ⟨.endResync, ({ p with resync := .ended }, []), rfl, ?_⟩
        simp only [act, hresync, hsupervisor]
      | cons key left =>
        refine .inr ⟨.put key, ?_⟩
        simp only [act, put, hresync, if_true]
        exact ⟨_, rfl, rfl⟩
    | absent | ended =>
      refine .inr ⟨.supervise,
        ({ p with queue := p.queue.shutDown.2, supervisor := .draining p.queue.shutDown.1 }, []), rfl, ?_⟩
      simp only [act, supervise, hsupervisor, hresync]
  | draining cancelled =>
    by_cases he : ∀ s ∈ p.workers, s = .exited
    · have hall : p.workers.all (· = .exited) = true := by simpa using he
      refine .inr ⟨.supervise, ?_⟩
      simp only [act, supervise, hsupervisor, if_pos hall]
      cases cancelled with
      | nil => exact ⟨_, rfl, rfl⟩
      | cons key cancelled => exact ⟨_, rfl, rfl⟩
    · obtain ⟨s, hs, hne⟩ := by simpa using he
      obtain ⟨i, hi⟩ := List.mem_iff_getElem?.mp hs
      refine (h.worker_goes_on setup clocks (hp.closed_of_draining hsupervisor) hi hne).imp ?_ ?_
      · rintro ⟨a, rfl⟩
        exact ⟨i, a, hi⟩
      · rintro ⟨change, hact⟩
        exact ⟨.work i, change, rfl, hact⟩
  | closing =>
    refine .inr ⟨.supervise, ({ p with phase := .stopped, supervisor := .finished }, []), rfl, ?_⟩
    simp only [act, supervise, hsupervisor]
  | finished => exact absurd (h.ended hsupervisor) hs

/-! ## What is left to be done

The rank of a pool is a sum. It counts what the worker has still to do with its key, what will be
done with each key that waits, and what is left to the supervisor and to the resync. A lemma below
is about one of these: the others do not change, or grow by the one stage that a ring may add
(`Stage.rank_le_succ`), and the weights are chosen so that this is made up for. -/

/-- How many stages a worker is away from having left, if no more keys come; `waits` if it waits for
the bell, and `looked` if its handler has looked at the object. The look counts as a step of its
own, for the sake of a daemon. -/
def Stage.rank (waits looked : Bool) : Stage → Nat
  | exited => 0
  | asking => if waits then 1 else 2
  | releasing _ => 3
  | settled .. => 4
  | retrying .. => 5
  | counting .. => 6
  | handling _ => if looked then 7 else 8
  | holding .. => 9

/-- How many steps the supervisor is away from its end; the ring of its shutting may call the worker
once more. -/
def Supervisor.rank : Supervisor → Nat
  | absent => 9
  | listening => 5
  | endingResync => 4
  | draining cancelled => 2 + cancelled.length
  | closing => 1
  | finished => 0

/-- How many steps come of the resync: of each key that it puts in, and of its end. -/
def Resync.rank : Resync → Nat
  | ticking _ left => 1 + 11 * left.length
  | absent | ended => 0

/-- How many steps are left to a pool with one worker, at most. Every step of its routine lowers it
(`InLine.rank_lt`), so a pool that is left alone comes to rest. -/
def rank (looked : Bool) (p : Pool) : Nat :=
  9 * p.queue.pending.length + p.workers.head?.elim 0 (Stage.rank (0 ∈ p.queue.bell.waiting) looked) +
    p.supervisor.rank + p.resync.rank

/-- A worker that asks for a key is one stage away from having left, or two if it has to be called
first. -/
theorem Stage.rank_asking_le (waits looked : Bool) :
    1 ≤ asking.rank waits looked ∧ asking.rank waits looked ≤ 2 := by
  cases waits <;> simp [rank]

/-- A ring gives a worker one more stage at most. -/
theorem Stage.rank_le_succ (waits waits' looked : Bool) (stage : Stage) :
    stage.rank waits looked ≤ stage.rank waits' looked + 1 := by
  cases stage with
  | asking =>
    have h := rank_asking_le waits looked
    have h' := rank_asking_le waits' looked
    omega
  | _ => exact Nat.le_succ _

/-- A ring gives the worker, if there is one, one more stage at most. -/
theorem worker_rank_le (p : Pool) (waits waits' looked : Bool) :
    p.workers.head?.elim 0 (Stage.rank waits looked) ≤ p.workers.head?.elim 0 (Stage.rank waits' looked) + 1 := by
  cases p.workers.head? with
  | none => exact Nat.zero_le _
  | some s => exact Stage.rank_le_succ waits waits' looked s

/-- A key that is put in has to be taken and handled, and the worker may be called for it. -/
theorem rank_accept_le (p : Pool) (key : Key) (kind : Trigger) (looked : Bool) :
    (p.accept key kind).rank looked ≤ p.rank looked + 10 := by
  have hpending : (p.queue.insert key).pending.length ≤ p.queue.pending.length + 1 := by
    unfold Queue.insert
    split
    · exact Nat.le_succ _
    · split
      · exact Nat.le_succ _
      · simp [Queue.append]
  have hworker := p.worker_rank_le (0 ∈ (p.queue.insert key).bell.waiting) (0 ∈ p.queue.bell.waiting) looked
  show 9 * (p.queue.insert key).pending.length +
    p.workers.head?.elim 0 (Stage.rank (0 ∈ (p.queue.insert key).bell.waiting) looked) + p.supervisor.rank +
    p.resync.rank ≤ _
  rw [rank]
  omega

/-- When the resync has one key less to put in, this outweighs what the key adds to the rest of the
pool. -/
theorem rank_lt_of_left {p p' : Pool} {next : Moment} {key : Key} {left : List Key} {looked : Bool}
    (hle : p'.rank looked ≤ p.rank looked + 10) (hr : p'.resync = .ticking next (key :: left)) :
    ({ p' with resync := .ticking next left } : Pool).rank looked < p.rank looked := by
  simp only [rank, hr, Resync.rank, List.length_cons] at hle ⊢
  omega

namespace InLine

variable {i : Nat} {old new : Stage} {key : Key} {accepted recorded : List (Key × Trigger)}

theorem index_eq (h : p.InLine accepted recorded) (hw : p.workers[i]? = some old) : i = 0 := by
  obtain ⟨hi, -⟩ := List.getElem?_eq_some_iff.mp hw
  have hlone := h.lone
  omega

theorem rank_of_workers (hw : p.workers = [old]) (looked : Bool) :
    p.rank looked = 9 * p.queue.pending.length + old.rank (0 ∈ p.queue.bell.waiting) looked + p.supervisor.rank +
      p.resync.rank := by
  rw [rank, hw, List.head?_cons, Option.elim_some]

/-- The worker comes nearer to its end. -/
theorem rank_lt_of_move (h : p.InLine accepted recorded) (hw : p.workers[i]? = some old)
    (hq : q.workers = (p.moveTo i new).workers) (hs : q.supervisor = p.supervisor) (hr : q.resync = p.resync)
    {looked looked' : Bool}
    (hlt : 9 * q.queue.pending.length + new.rank (0 ∈ q.queue.bell.waiting) looked' <
      9 * p.queue.pending.length + old.rank (0 ∈ p.queue.bell.waiting) looked) :
    q.rank looked' < p.rank looked := by
  obtain ⟨hold, hnew⟩ := h.workers_eq hw
  rw [rank_of_workers (hq.trans (hnew new)), rank_of_workers hold, hs, hr]
  omega

/-- The worker comes nearer to its end with every stage. Where it takes a key the line becomes
shorter, and where it gives one back the line does not become longer, since no key is marked if none
comes twice. -/
theorem rank_lt_of_work (h : p.InLine accepted recorded) (hl : setup.retryLimit = 0)
    (hact : p.act setup clocks (.work i) = some (q, notices)) (looked : Bool) : q.rank looked < p.rank looked := by
  cases step_of_act hact with
  | @took _ key rest hw hb hp =>
    have hstage : (p.taken i key rest).workers = (p.moveTo i (.holding key (p.kindOf key))).workers := rfl
    refine h.rank_lt_of_move hw hstage rfl rfl ?_
    have hasking := Stage.rank_asking_le (0 ∈ p.queue.bell.waiting) looked
    show 9 * rest.length + 9 < _
    rw [hp, List.length_cons]
    omega
  | left hw =>
    refine h.rank_lt_of_move hw rfl rfl rfl (Nat.add_lt_add_left ?_ _)
    exact (Stage.rank_asking_le ..).1
  -- to go to the bell is a step too, but the worker has to be called once more for it
  | waited hw hb =>
    obtain rfl := h.index_eq hw
    obtain ⟨hworkers, -⟩ := h.workers_eq hw
    have hwaits : 0 ∈ ((p.queue.bell.arrive 0).wait 0).waiting := by simp [Bell.wait]
    simp only [rank, hworkers, List.head?_cons, Option.elim_some, decide_eq_true hwaits, decide_eq_false hb, Stage.rank]
    simp
  | @released _ key hw =>
    have hstage : (p.givenBack i key).workers = (p.moveTo i .asking).workers := rfl
    refine h.rank_lt_of_move hw hstage rfl rfl ?_
    have hasking := Stage.rank_asking_le (0 ∈ (p.givenBack i key).queue.bell.waiting) looked
    have hqueue : (p.givenBack i key).queue.pending = p.queue.pending := by
      show (p.queue.done key).pending = _
      rw [Queue.done_of_not_mem_dirty (h.unmarked key)]
    have hreleasing : (Stage.releasing key).rank (0 ∈ p.queue.bell.waiting) looked = 3 := rfl
    rw [hqueue, hreleasing]
    omega
  | began hw =>
    refine h.rank_lt_of_move hw rfl rfl rfl (Nat.add_lt_add_left ?_ _)
    cases looked <;> simp [Stage.rank]
  | dropped hw | recorded hw => exact h.rank_lt_of_move hw rfl rfl rfl (Nat.add_lt_add_left (by simp [Stage.rank]) _)
  -- nothing is tried again, so these stages are never come to
  | kept hw hf => exact absurd (h.isFinal hw) (Nat.not_lt.mpr (hl ▸ hf))
  | retriedAtOnce hw | retryCovered hw | retryDelayed hw | retryRefused hw => exact (h.isFinal hw).elim

theorem rank_lt_of_looked (h : p.InLine accepted recorded) {b : Attempt} (hw : p.workers[i]? = some (.handling b)) :
    p.rank true < p.rank false := by
  obtain ⟨hworkers, -⟩ := h.workers_eq hw
  simp only [rank_of_workers hworkers, Stage.rank, if_true, Bool.false_eq_true, if_false]
  omega

theorem rank_lt_of_finish (h : p.InLine accepted recorded) {result : Result}
    (hact : p.act setup clocks (.finish i result) = some (q, notices)) : q.rank false < p.rank true := by
  cases step_of_act hact with
  | succeeded hw | failed hw =>
    exact h.rank_lt_of_move hw rfl rfl rfl (Nat.add_lt_add_left (by simp [Stage.rank]) _)

/-- A step of the supervisor lowers the rank. When it shuts the queue it may call the worker, and
its own stage has that call counted in. -/
theorem rank_lt_of_supervise (h : p.InLine accepted recorded) (hp : p.Sound setup)
    (hact : p.act setup clocks .supervise = some (q, notices)) (looked : Bool) : q.rank looked < p.rank looked := by
  cases step_of_act hact with
  | heard hs =>
    simp only [rank, hs, Supervisor.rank]
    omega
  | shut hs =>
    have hworker := p.worker_rank_le (0 ∈ p.queue.shutDown.2.bell.waiting) (0 ∈ p.queue.bell.waiting) looked
    have hpending : p.queue.shutDown.2.pending = p.queue.pending := by
      rw [Queue.shutDown_of_open (hp.open_of_endingResync hs)]
    simp only [rank, hs, Supervisor.rank, hpending, h.shutDown_fst hp, List.length_nil]
    omega
  | passedOver hs | closedOut hs =>
    have hnone := h.cancelled
    rw [hs] at hnone
    cases hnone
  | forgot hs | stopped hs =>
    simp only [rank, hs, Supervisor.rank]
    omega

/-- To start the pool is a step towards its end. -/
theorem rank_start_lt (hp : p.Sound setup) (hw : setup.workers = 1)
    (hi : p.phase = .idle) (looked : Bool) : (p.start setup clocks).rank looked < p.rank looked := by
  obtain ⟨hnone, hsupervisor⟩ := hp.idle hi
  have hworkers : (p.start setup clocks).workers = [.asking] := by rw [Pool.start, hw]; rfl
  have hasking := Stage.rank_asking_le (0 ∈ (p.start setup clocks).queue.bell.waiting) looked
  have hresync : (p.start setup clocks).resync.rank ≤ 1 := by
    simp only [Pool.start]
    cases setup.resync <;> simp [Resync.rank]
  have hlistening : (p.start setup clocks).supervisor.rank = 5 := rfl
  rw [rank_of_workers hworkers, rank, hnone, hsupervisor, hlistening]
  show 9 * p.queue.pending.length + _ + _ + _ < 9 * p.queue.pending.length + 0 + 9 + _
  omega

theorem rank_lt_of_put (hact : p.act setup clocks (.put key) = some (q, notices)) (looked : Bool) :
    q.rank looked < p.rank looked := by
  cases step_of_act hact with
  | put _ hr => exact rank_lt_of_left (p.rank_accept_le key .auto looked) hr
  | putLate _ hr => exact rank_lt_of_left (Nat.le_add_right _ _) hr

/-- A pool comes nearer to its end with every step that it takes by itself. -/
theorem rank_lt (h : p.InLine accepted recorded) (hp : p.Sound setup) (hw : setup.workers = 1)
    (hl : setup.retryLimit = 0) (ha : a.isRoutine = true) (hact : p.act setup clocks a = some (q, notices))
    (looked : Bool) : q.rank looked < p.rank looked := by
  cases a with
  | run =>
    cases step_of_act hact with
    | started hi => exact rank_start_lt hp hw hi looked
  | work i => exact h.rank_lt_of_work hl hact looked
  | fire key m =>
    have hnone : (key, m) ∉ p.queue.timers := by simp [h.untimed]
    simp [Pool.act, hnone] at hact
  | put key => exact rank_lt_of_put hact looked
  | endResync =>
    simp only [Pool.act] at hact
    split at hact
    · next hr hs =>
      cases hact
      simp only [rank, hr, Resync.rank]
      omega
    · cases hact
  | supervise => exact h.rank_lt_of_supervise hp hact looked
  | _ => cases ha

end InLine

end ControlLoop.Pool
