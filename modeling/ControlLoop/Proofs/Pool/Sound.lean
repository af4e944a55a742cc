import ControlLoop.Proofs.Pool.Holder
import ControlLoop.Proofs.Pool.Run
import ControlLoop.Proofs.Pool.Step

/-!
# Sound pools

What every pool keeps along every run. `Pool.Sound` links the places of the workers to the queue (a
key is handed out exactly if one worker holds it) and to the order in which a pool ends: the queue
is shut before a worker leaves, the last worker leaves an empty queue, and nothing is closed out
before all of them have left.

`sound_of_act` shows it for one step, outcome by outcome, and `sound_of_run` for whole runs.

The clauses hang together: that no key is held twice is kept because the queue hands out only what
is not handed out already, and that the queue is empty when the last worker leaves is known because
only a worker that finds it empty leaves. `Sound.moveTo` takes care of all clauses that a worker can
touch at once; the steps of a worker are cases of it.
-/

namespace ControlLoop.Pool

/-- Has the queue been shut? -/
def Supervisor.hasShut : Supervisor → Bool
  | draining _ | closing | finished => true
  | absent | listening | endingResync => false

/-- Have all accounts been closed? -/
def Supervisor.hasDrained : Supervisor → Bool
  | closing | finished => true
  | absent | listening | endingResync | draining _ => false

/-- What every pool keeps. The first clauses tie the workers to the queue, the later ones say in
which order a pool ends; statements about whole runs begin with `sound_of_run`. -/
structure Sound (setup : Setup) (p : Pool) : Prop where
  /-- the queue is sound -/
  queue : p.queue.Sound
  /-- no key is held twice -/
  nodup_held : p.held.Nodup
  /-- the keys that are handed out are those that workers hold -/
  mem_processing : ∀ key, key ∈ p.queue.processing ↔ key ∈ p.held
  /-- a pool that has not run has no parts -/
  idle : p.phase = .idle → p.workers = [] ∧ p.supervisor = .absent
  /-- a pool that has run has all its workers -/
  length_workers : p.phase ≠ .idle → p.workers.length = setup.workers
  /-- only workers that ask for a key wait for the bell -/
  waiting : ∀ i ∈ p.queue.bell.waiting, p.workers[i]? = some .asking
  /-- the supervisor shuts the queue, and nobody else -/
  closed_eq : p.queue.closed = p.supervisor.hasShut
  /-- a worker leaves only when the queue is shut -/
  closed_of_exited : .exited ∈ p.workers → p.queue.closed = true
  /-- the last worker leaves an empty queue -/
  drained : p.workers ≠ [] → (∀ s ∈ p.workers, s = .exited) → p.queue.pending = []
  /-- once all accounts are closed all workers have left -/
  exited : p.supervisor.hasDrained = true → ∀ s ∈ p.workers, s = .exited
  /-- a pool stops last of all -/
  stopped : p.phase = .stopped → p.supervisor = .finished

variable {setup : Setup} {clocks : Clocks} {p q : Pool} {i : Nat} {old new : Stage} {key : Key}

/-- A pool that has not run is sound: it has no workers, no supervisor, and nothing in its queue. -/
theorem sound_fresh (setup : Setup) (capacity : Nat) : (fresh capacity).Sound setup where
  queue := Queue.sound_empty
  nodup_held := List.nodup_nil
  mem_processing := by simp [fresh, held]
  idle _ := ⟨rfl, rfl⟩
  length_workers h := absurd rfl h
  waiting := by simp [fresh]
  closed_eq := rfl
  closed_of_exited := by simp [fresh]
  drained h := absurd rfl h
  exited := by simp [fresh]
  stopped h := by cases h

namespace Sound

theorem congr (h : p.Sound setup) (hq : q.queue = p.queue) (hw : q.workers = p.workers) (hp : q.phase = p.phase)
    (hs : q.supervisor = p.supervisor) : q.Sound setup := by
  obtain ⟨queue, nodup_held, mem_processing, idle, length_workers, waiting, closed_eq, closed_of_exited, drained,
    exited, stopped⟩ := h
  constructor <;> simp only [held, hq, hw, hp, hs] at * <;> assumption

theorem phase_ne_idle (h : p.Sound setup) (hw : p.workers[i]? = some old) : p.phase ≠ .idle := by
  intro hi
  rw [(h.idle hi).1] at hw
  cases hw

theorem closed_of_stopped (h : p.Sound setup) (hs : p.phase = .stopped) : p.queue.closed = true := by
  rw [h.closed_eq, h.stopped hs]
  rfl

theorem exited_of_stopped (h : p.Sound setup) (hs : p.phase = .stopped) : ∀ s ∈ p.workers, s = .exited :=
  h.exited (by rw [h.stopped hs]; rfl)

theorem workers_ne_nil (h : p.Sound setup) (hw : 1 ≤ setup.workers) (hi : p.phase ≠ .idle) : p.workers ≠ [] := by
  intro hnil
  have hlength := h.length_workers hi
  rw [hnil, List.length_nil] at hlength
  omega

theorem open_of_endingResync (h : p.Sound setup) (hs : p.supervisor = .endingResync) : p.queue.closed = false := by
  rw [h.closed_eq, hs]
  rfl

/-- While the supervisor closes accounts the queue is shut. -/
theorem closed_of_draining (h : p.Sound setup) {cancelled : List Key} (hs : p.supervisor = .draining cancelled) :
    p.queue.closed = true := by
  rw [h.closed_eq, hs]
  rfl

/-- While the queue is open, some worker has not left. -/
theorem not_all_exited (h : p.Sound setup) (ho : p.queue.closed = false) (hne : p.workers ≠ []) :
    ¬∀ s ∈ p.workers, s = .exited := by
  intro hall
  obtain ⟨s, hs⟩ := List.exists_mem_of_ne_nil _ hne
  rw [h.closed_of_exited (hall s hs ▸ hs)] at ho
  cases ho

/-- The key of a worker is handed out. -/
theorem mem_processing_of_holder (h : p.Sound setup) (hw : p.workers[i]? = some old) (hk : old.key? = some key) :
    key ∈ p.queue.processing :=
  (h.mem_processing key).mpr (mem_held.mpr ⟨old, List.mem_of_getElem? hw, hk⟩)

/-- The queue may change, as long as it hands out what it handed out and nothing enters it after
shutting. -/
theorem setQueue (h : p.Sound setup) {queue : Queue} (hq : queue.Sound)
    (hout : queue.processing = p.queue.processing) (hc : queue.closed = p.queue.closed)
    (hw : ∀ t ∈ queue.bell.waiting, t ∈ p.queue.bell.waiting)
    (hp : queue.pending = p.queue.pending ∨ p.queue.closed = false) : ({ p with queue } : Pool).Sound setup where
  queue := hq
  nodup_held := h.nodup_held
  mem_processing key := hout ▸ h.mem_processing key
  idle := h.idle
  length_workers := h.length_workers
  waiting t ht := h.waiting t (hw t ht)
  closed_eq := hc.trans h.closed_eq
  closed_of_exited he := hc.trans (h.closed_of_exited he)
  drained hne hall := by
    rcases hp with hp | ho
    · exact hp.trans (h.drained hne hall)
    · exact absurd hall (h.not_all_exited ho hne)
  exited := h.exited
  stopped := h.stopped

theorem insert (h : p.Sound setup) (ho : p.queue.closed = false) (key : Key) :
    ({ p with queue := p.queue.insert key } : Pool).Sound setup :=
  h.setQueue (h.queue.insert key) (Queue.insert_processing ..) (Queue.insert_closed ..)
    (fun _ => Queue.mem_waiting_of_insert) (.inr ho)

theorem setTimer (h : p.Sound setup) (ho : p.queue.closed = false) (key : Key) (m : Moment) :
    ({ p with queue := p.queue.setTimer key m } : Pool).Sound setup :=
  h.setQueue (h.queue.setTimer ho key m) rfl rfl (fun _ => id) (.inr ho)

/-- A timer may go off at any moment: after shutting it finds nothing to do, since no key is delayed
then. -/
theorem fire (h : p.Sound setup) (key : Key) (m : Moment) :
    ({ p with queue := p.queue.fire key m } : Pool).Sound setup := by
  by_cases hm : p.queue.delayed[key]? = some m
  · obtain ⟨ho, heq⟩ := h.queue.fire_of_delayed hm
    refine h.setQueue (h.queue.fire key m) ?_ ?_ ?_ (.inr ho) <;> rw [heq]
    · exact Queue.insert_processing ..
    · exact Queue.insert_closed ..
    · exact fun _ => Queue.mem_waiting_of_insert
  · refine h.setQueue (h.queue.fire key m) ?_ ?_ ?_ (.inl ?_) <;> rw [Queue.fire_of_not_delayed hm]
    exact fun _ => id

/-- A trigger may be accepted while the queue is open; the kind that is noted with it does not
matter here. -/
theorem accept (h : p.Sound setup) (ho : p.queue.closed = false) (key : Key) (kind : Trigger) :
    (p.accept key kind).Sound setup :=
  (h.insert ho key).congr rfl rfl rfl rfl

/-! ## Workers

A worker takes a key, moves on with it or gives it back, waits for the bell, or leaves. The first
three are cases of `Sound.moveTo`, which asks that the workers and the queue go on agreeing on what
is handed out. A worker that waits or leaves holds nothing before and after; there the clauses on
the bell and on the end of the pool are what has to be shown. -/

/-- Whoever is at another stage than `asking` does not wait for the bell. -/
theorem waiting_ne (h : p.Sound setup) (hw : p.workers[i]? = some old) (ho : old ≠ .asking) {t : Ticket}
    (ht : t ∈ p.queue.bell.waiting) : t ≠ i := by
  rintro rfl
  have hask := h.waiting t ht
  rw [hw] at hask
  exact ho (Option.some.inj hask)

/-- A worker may move on, and the queue with it, as long as they agree on the keys that are handed
out. -/
theorem moveTo (h : p.Sound setup) (hw : p.workers[i]? = some old) (hold : old ≠ .exited) (hnew : new ≠ .exited)
    {queue : Queue} (hq : queue.Sound) (hn : (p.moveTo i new).held.Nodup)
    (hout : ∀ key, key ∈ queue.processing ↔ key ∈ (p.moveTo i new).held) (hc : queue.closed = p.queue.closed)
    (hb : ∀ t ∈ queue.bell.waiting, t ∈ p.queue.bell.waiting ∧ t ≠ i) :
    (({ p with queue } : Pool).moveTo i new).Sound setup where
  queue := hq
  nodup_held := hn
  mem_processing := hout
  idle hi := absurd hi (h.phase_ne_idle hw)
  length_workers hi := by
    rw [Pool.moveTo, List.length_set]
    exact h.length_workers hi
  waiting t ht := by
    obtain ⟨ht, hne⟩ := hb t ht
    rw [Pool.moveTo, List.getElem?_set_ne (Ne.symm hne)]
    exact h.waiting t ht
  closed_eq := hc.trans h.closed_eq
  closed_of_exited he := by
    rcases List.mem_or_eq_of_mem_set he with he | he
    · exact hc.trans (h.closed_of_exited he)
    · exact absurd he.symm hnew
  -- the worker that moves has not left, so not all have
  drained _ hall := by
    exact absurd (hall new (List.mem_of_getElem? (getElem?_moveTo hw new))) hnew
  exited hd := absurd (h.exited hd old (List.mem_of_getElem? hw)) hold
  stopped := h.stopped

/-- A worker that moves on with its key changes nothing between the workers and the queue. -/
theorem move (h : p.Sound setup) (hw : p.workers[i]? = some old) (ho : old.key? = some key)
    (hk : new.key? = some key) : (p.moveTo i new).Sound setup := by
  have hheld := held_moveTo_of_eq hw (hk.trans ho.symm)
  -- a worker with a key has not left, and does not wait for the bell
  refine h.moveTo hw ?_ ?_ h.queue ?_ ?_ rfl ?_
  · rintro rfl
    cases ho
  · rintro rfl
    cases hk
  · exact hheld.nodup_iff.mpr h.nodup_held
  · intro other
    rw [hheld.mem_iff]
    exact h.mem_processing other
  · intro t ht
    refine ⟨ht, h.waiting_ne hw ?_ ht⟩
    rintro rfl
    cases ho

/-- A worker takes the first key that waits. -/
theorem take (h : p.Sound setup) {rest : List Key} (hw : p.workers[i]? = some .asking)
    (hb : i ∉ p.queue.bell.waiting) (hp : p.queue.pending = key :: rest) : (p.taken i key rest).Sound setup := by
  have hheld : (p.moveTo i (.holding key (p.kindOf key))).held.Perm (key :: p.held) := held_moveTo_of_take hw rfl rfl
  have hfree : key ∉ p.held := by
    intro hmem
    refine h.queue.not_mem_pending key ((h.mem_processing key).mpr hmem) ?_
    rw [hp]
    exact List.mem_cons_self
  -- the queue counts the key as handed out in the same step
  have hmove : (({ p with queue := p.queue.handOut i key rest } : Pool).moveTo i
      (.holding key (p.kindOf key))).Sound setup := by
    refine h.moveTo hw (by simp) (by simp) (h.queue.handOut hp i) ?_ ?_ rfl ?_
    · exact hheld.nodup_iff.mpr (List.nodup_cons.mpr ⟨hfree, h.nodup_held⟩)
    · intro other
      rw [hheld.mem_iff, List.mem_cons, ← h.mem_processing other, Queue.handOut, Std.ExtTreeSet.mem_insert,
        Std.compare_eq_iff_eq, eq_comm]
    · intro t ht
      exact ⟨ht, fun heq => hb (heq ▸ ht)⟩
  exact hmove.congr rfl rfl rfl rfl

/-- A worker gives its key back. -/
theorem release (h : p.Sound setup) (hw : p.workers[i]? = some (.releasing key)) :
    (p.givenBack i key).Sound setup := by
  have hheld : p.held.Perm (key :: (p.moveTo i .asking).held) := held_moveTo_of_drop hw rfl rfl
  have hn := List.nodup_cons.mp (hheld.nodup_iff.mp h.nodup_held)
  refine h.moveTo hw (by simp) (by simp) (h.queue.done key) hn.2 ?_ (Queue.done_closed ..) ?_
  · intro other
    rw [Queue.done_processing, Std.ExtTreeSet.mem_erase, h.mem_processing, hheld.mem_iff, List.mem_cons]
    constructor
    · rintro ⟨hne, rfl | hmem⟩
      · exact absurd Std.compare_self hne
      · exact hmem
    · intro hmem
      refine ⟨?_, .inr hmem⟩
      intro heq
      exact hn.1 (Std.compare_eq_iff_eq.mp heq ▸ hmem)
  · intro t ht
    exact ⟨Queue.mem_waiting_of_done ht, h.waiting_ne hw (by simp) (Queue.mem_waiting_of_done ht)⟩

/-- A worker that finds the queue shut and empty leaves. -/
theorem leave (h : p.Sound setup) (hw : p.workers[i]? = some .asking) (hb : i ∉ p.queue.bell.waiting)
    (hp : p.queue.pending = []) (hc : p.queue.closed = true) :
    (({ p with queue := { p.queue with bell := p.queue.bell.arrive i } } : Pool).moveTo i .exited).Sound setup := by
  have hheld : (p.moveTo i .exited).held.Perm p.held := held_moveTo_of_eq hw rfl
  refine ⟨h.queue.setBell _, hheld.nodup_iff.mpr h.nodup_held, ?_, ?_, ?_, ?_, h.closed_eq, fun _ => hc,
    fun _ _ => hp, ?_, h.stopped⟩
  · exact fun other => (h.mem_processing other).trans hheld.mem_iff.symm
  · exact fun hi => absurd hi (h.phase_ne_idle hw)
  · intro hi
    rw [Pool.moveTo, List.length_set]
    exact h.length_workers hi
  · intro t ht
    rw [Pool.moveTo, List.getElem?_set_ne]
    · exact h.waiting t ht
    · rintro rfl
      exact hb ht
  · intro hd s hs
    rcases List.mem_or_eq_of_mem_set hs with hs | rfl
    · exact h.exited hd s hs
    · rfl

/-- A worker that finds the queue empty waits for the bell. -/
theorem wait (h : p.Sound setup) (hw : p.workers[i]? = some .asking) :
    ({ p with queue := { p.queue with bell := (p.queue.bell.arrive i).wait i } } : Pool).Sound setup where
  queue := h.queue.setBell _
  nodup_held := h.nodup_held
  mem_processing := h.mem_processing
  idle := h.idle
  length_workers := h.length_workers
  waiting t ht := by
    rcases List.mem_append.mp ht with ht | ht
    · exact h.waiting t ht
    · exact List.mem_singleton.mp ht ▸ hw
  closed_eq := h.closed_eq
  closed_of_exited := h.closed_of_exited
  drained := h.drained
  exited := h.exited
  stopped := h.stopped

/-! ## The life of the pool

What the supervisor does concerns the clauses on the order in which a pool ends. The keys are not
touched by it: shutting the queue cancels the delays and leaves alone what waits and what is handed
out, and closing an account changes neither the queue nor the workers. -/

/-- A pool that starts to run has its workers, which hold nothing and have not left. That the
workers were none before, and the queue open, is what the pool has kept while it was idle. -/
theorem start (h : p.Sound setup) (hi : p.phase = .idle) : (p.start setup clocks).Sound setup := by
  obtain ⟨hw, hs⟩ := h.idle hi
  have ho : p.queue.closed = false := by
    rw [h.closed_eq, hs]
    rfl
  have hheld : (p.start setup clocks).held = p.held := by
    rw [held, held, hw]
    simp [Pool.start, Stage.key?]
  refine ⟨h.queue, ?_, ?_, ?_, ?_, ?_, ?_, ?_, ?_, ?_, ?_⟩
  · rw [hheld]
    exact h.nodup_held
  · rw [hheld]
    exact h.mem_processing
  · intro hr
    cases hr
  · intro _
    exact List.length_replicate
  · intro t ht
    have := h.waiting t ht
    rw [hw] at this
    cases this
  · exact ho
  · intro he
    cases (List.mem_replicate.mp he).2
  · -- a worker that has just started has not left
    intro hne hall
    obtain ⟨s, hmem⟩ := List.exists_mem_of_ne_nil _ hne
    have := (List.mem_replicate.mp hmem).2
    rw [hall s hmem] at this
    cases this
  · intro hd
    cases hd
  · intro hr
    cases hr

/-- Shutting the queue takes no key out of it. -/
theorem shut (h : p.Sound setup) (hs : p.supervisor = .endingResync) :
    ({ p with queue := p.queue.shutDown.2, supervisor := .draining p.queue.shutDown.1 } : Pool).Sound setup := by
  have hshut := h.queue.shutDown
  rw [Queue.shutDown_of_open (h.open_of_endingResync hs)] at hshut ⊢
  refine ⟨hshut, h.nodup_held, h.mem_processing, ?_, h.length_workers, ?_, rfl, fun _ => rfl, h.drained, ?_, ?_⟩
  · intro hi
    rw [(h.idle hi).2] at hs
    cases hs
  · intro t ht
    cases ht
  · intro hd
    cases hd
  · intro hstop
    rw [h.stopped hstop] at hs
    cases hs

theorem setSupervisor (h : p.Sound setup) {supervisor : Supervisor} (hi : p.supervisor ≠ .absent)
    (hf : p.supervisor ≠ .finished) (hc : supervisor.hasShut = p.supervisor.hasShut)
    (hd : supervisor.hasDrained = true → ∀ s ∈ p.workers, s = .exited) : ({ p with supervisor } : Pool).Sound setup :=
  ⟨h.queue, h.nodup_held, h.mem_processing, fun hidle => absurd (h.idle hidle).2 hi, h.length_workers, h.waiting,
    h.closed_eq.trans hc.symm, h.closed_of_exited, h.drained, hd, fun hstop => absurd (h.stopped hstop) hf⟩

/-- The pool stops. -/
theorem finish (h : p.Sound setup) (hs : p.supervisor = .closing) :
    ({ p with phase := .stopped, supervisor := .finished } : Pool).Sound setup := by
  refine ⟨h.queue, h.nodup_held, h.mem_processing, ?_, ?_, h.waiting, ?_, h.closed_of_exited, h.drained, ?_, ?_⟩
  · intro hi
    cases hi
  · intro _
    refine h.length_workers fun hi => ?_
    rw [(h.idle hi).2] at hs
    cases hs
  · exact h.closed_eq.trans (by rw [hs]; rfl)
  · intro _
    refine h.exited ?_
    rw [hs]
    rfl
  · exact fun _ => rfl

end Sound

/-- Every step keeps a pool sound, outcome by outcome of `Pool.Step`. -/
theorem sound_of_act {a : Action} {notices : List Notice} (h : p.Sound setup)
    (hact : p.act setup clocks a = some (q, notices)) : q.Sound setup := by
  cases step_of_act hact with
  | accepted ho => exact h.accept ho _ _
  | refused => exact h
  | started hi => exact h.start hi
  | stopRequested => exact h.congr rfl rfl rfl rfl
  | took hw hb hp => exact h.take hw hb hp
  | left hw hb hp hc => exact h.leave hw hb hp hc
  | waited hw => exact h.wait hw
  | released hw => exact h.release hw
  | began hw => exact h.move hw rfl rfl
  | succeeded hw | failed hw | dropped hw | kept hw | retryRefused hw | recorded hw =>
    exact (h.move hw rfl rfl).congr rfl rfl rfl rfl
  | retryCovered hw => exact h.move hw rfl rfl
  | retriedAtOnce hw ho => exact (h.insert ho _).move hw rfl rfl
  | retryDelayed hw ho => exact (h.setTimer ho _ _).move hw rfl rfl
  | fired | lapsed => exact h.fire _ _
  | @put key _ _ ho => exact (h.accept ho key .auto).congr rfl rfl rfl rfl
  | ticked | putLate | resyncEnded => exact h.congr rfl rfl rfl rfl
  | heard hs =>
    exact h.setSupervisor (by simp [hs]) (by simp [hs]) (by rw [hs]; rfl) (by simp [Supervisor.hasDrained])
  | shut hs => exact h.shut hs
  | passedOver hs =>
    exact h.setSupervisor (by simp [hs]) (by simp [hs]) (by rw [hs]; rfl) (by simp [Supervisor.hasDrained])
  | @closedOut key cancelled account hs =>
    have hnext : ({ p with supervisor := .draining cancelled } : Pool).Sound setup :=
      h.setSupervisor (by simp [hs]) (by simp [hs]) (by rw [hs]; rfl) (by simp [Supervisor.hasDrained])
    exact hnext.congr rfl rfl rfl rfl
  | forgot hs he =>
    have hnext : ({ p with supervisor := .closing } : Pool).Sound setup :=
      h.setSupervisor (by simp [hs]) (by simp [hs]) (by rw [hs]; rfl) fun _ => he
    exact hnext.congr rfl rfl rfl rfl
  | stopped hs => exact h.finish hs

/-- Every run leaves a sound pool. -/
theorem sound_of_run {capacity : Nat} {steps : List (Clocks × Action)} {log : Log}
    (h : run setup (fresh capacity) steps = some (p, log)) : p.Sound setup :=
  run_keeps (Sound setup) (fun hp hact => sound_of_act hp hact) (sound_fresh setup capacity) h

end ControlLoop.Pool
