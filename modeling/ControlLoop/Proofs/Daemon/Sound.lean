import ControlLoop.Proofs.Daemon.Live
import ControlLoop.Proofs.Pool.Verdict

/-!
# What a daemon keeps

While a daemon reads, its pool has not been told to stop, so the key that a line has named is
accepted (`Live.Calm`). And what a handler has found is as good as what it would find now, or else
the key of the handler has been put in since, or is about to be (`Live.Sighted`): no handler ends on
an object that was changed meanwhile, unless its key will be handled again.
-/

namespace ControlLoop

namespace Daemon.Live

open TenantStore

variable {setup : Pool.Setup} {clocks : Clocks} {l m : Live} {pool : Pool} {a : Pool.Action} {notices : List Notice}
  {move : Move} {seen : List Seen}

/-! ## The input and the pool

A trigger is refused only when the queue has been shut or the pool has stopped. Both come of the
signal to stop, and that is given between two lines. -/

/-- While lines are read the pool has not been told to stop. So a key that a line has named can not
be refused. -/
structure Calm (l : Live) : Prop where
  /-- a key is due only while lines are read -/
  reading : l.due ≠ none → l.reading = true
  /-- the signal to stop is given when no more lines are read -/
  calm : l.reading = true → l.pool.stopRequested = false
  /-- the supervisor waits for the signal -/
  heeds : l.pool.Heeds

/-- The signal to stop is given when the reading ends, and by nobody else. -/
theorem calm_of_turn (h : l.Calm) (ht : Turn setup clocks l m seen) : m.Calm := by
  cases ht with
  | passed => exact h
  | took hr => exact ⟨fun _ => hr, h.calm, h.heeds⟩
  | told hd hact =>
    refine ⟨fun hne => absurd rfl hne, fun hr => ?_, Pool.heeds_of_act h.heeds hact⟩
    exact (Pool.stopRequested_of_act (by simp) hact).trans (h.calm hr)
  | stopped hd hact => exact ⟨fun hne => absurd hd hne, nofun, Pool.heeds_of_act h.heeds hact⟩
  | looked => exact ⟨h.reading, h.calm, h.heeds⟩
  | finished hw hf hact =>
    refine ⟨h.reading, fun hr => ?_, Pool.heeds_of_act h.heeds hact⟩
    exact (Pool.stopRequested_of_act (by simp) hact).trans (h.calm hr)
  | worked ha hact =>
    refine ⟨h.reading, fun hr => ?_, Pool.heeds_of_act h.heeds hact⟩
    refine (Pool.stopRequested_of_act ?_ hact).trans (h.calm hr)
    rintro rfl
    cases ha

/-- While a key is due the queue is open, and the pool has not stopped: it shuts its queue only when
it has been told to. -/
theorem Calm.running (h : l.Calm) (hp : l.pool.Sound setup) (hd : l.due ≠ none) :
    l.pool.queue.closed = false ∧ l.pool.phase ≠ .stopped :=
  h.heeds.running hp (h.calm (h.reading hd))

/-- A key that is due is accepted. -/
theorem Calm.accept {key : Key} (h : l.Calm) (hp : l.pool.Sound setup) (hd : l.due = some key)
    (hact : l.pool.act setup clocks (.trigger key .manual) = some (pool, notices)) :
    pool = l.pool.accept key .manual := by
  obtain ⟨hopen, hphase⟩ := h.running hp (by simp [hd])
  cases Pool.step_of_act hact with
  | accepted => rfl
  | refused hc =>
    rcases hc with hclosed | hstopped
    · rw [hopen] at hclosed
      cases hclosed
    · exact absurd hstopped hphase

/-! ## What the handlers have found -/

/-- What the handlers have found is not out of date, unless it will be looked up again. A handler
looks long before it ends, and the objects may change in between. -/
structure Sighted (l : Live) : Prop where
  /-- only a handler that runs has found something -/
  looked : ∀ i, l.found i ≠ none → ∃ a, l.pool.workers[i]? = some (.handling a)
  /-- it would find as good now, or its key has been put in since, or is about to be -/
  fresh : ∀ i a found, l.pool.workers[i]? = some (.handling a) → l.found i = some found →
    fault? a.key found = fault? a.key (l.store.get? a.key) ∨ a.key ∈ l.pool.queue.dirty ∨ l.due = some a.key

/-- The pool takes a step, and the handlers that go on keep what they have found. The objects are
what they were, and a key stays marked as long as its handler runs. -/
theorem Sighted.act (h : l.Sighted) (hp : l.pool.Sound setup) (hact : l.pool.act setup clocks a = some (pool, notices))
    (found : Nat → Option (Option TenantObject))
    (hf : ∀ i, found i ≠ none → found i = l.found i ∧ ∀ result, a ≠ .finish i result) :
    ({ l with pool, found } : Live).Sighted := by
  have hgoes : ∀ i, found i ≠ none → ∃ b, l.pool.workers[i]? = some (.handling b) ∧
      pool.workers[i]? = some (.handling b) := by
    intro i hi
    obtain ⟨hsame, ha⟩ := hf i hi
    obtain ⟨b, hw⟩ := h.looked i (hsame ▸ hi)
    exact ⟨b, hw, Pool.handling_of_act hp hact hw ha⟩
  constructor
  · intro i hi
    obtain ⟨b, -, hw⟩ := hgoes i hi
    exact ⟨b, hw⟩
  · intro i b o (hw : pool.workers[i]? = _) (ho : found i = some o)
    have hi : found i ≠ none := by simp [ho]
    obtain ⟨c, hold, hnew⟩ := hgoes i hi
    cases hw.symm.trans hnew
    refine (h.fresh i b o hold ((hf i hi).1.symm.trans ho)).imp_right (.imp_left fun hd => ?_)
    exact Pool.mem_dirty_of_act hp hact hold hnew hd

/-- Every move keeps the handlers sighted. When an object changes under a handler its key is due,
and when the key is triggered it is marked; only then is it no longer due. -/
theorem sighted_of_turn (h : l.Sighted) (hp : l.pool.Sound setup) (hc : l.Calm) (ht : Turn setup clocks l m seen) :
    m.Sighted := by
  cases ht with
  | passed => exact h
  | @took line key store hr hd ht =>
    refine ⟨h.looked, fun i a o hw ho => ?_⟩
    -- a handler of the key may now be out of date, but the key is due
    by_cases hk : a.key = key
    · exact .inr (.inr (congrArg some hk.symm))
    · have hfresh := (h.fresh i a o hw ho).imp_right fun hor => hor.resolve_right (by simp [hd])
      have hget : store.get? a.key = l.store.get? a.key := get?_take? ht hk
      show fault? a.key o = fault? a.key (store.get? a.key) ∨ _
      rw [hget]
      exact hfresh.imp_right .inl
  | @told key pool notices hd hact =>
    have hkept := h.act hp hact l.found fun i _ => ⟨rfl, by simp⟩
    refine ⟨hkept.looked, fun i a o (hw : pool.workers[i]? = _) ho => ?_⟩
    rcases hkept.fresh i a o hw ho with hf | hm | hdue
    · exact .inl hf
    · exact .inr (.inl hm)
    · -- the key of the handler is the one that has been due, and it is marked now
      obtain rfl : a.key = key := Option.some.inj (hdue.symm.trans hd)
      obtain rfl := hc.accept hp hd hact
      refine .inr (.inl (Queue.mem_dirty_insert.mpr (.inr ⟨rfl, ?_⟩)))
      exact hp.mem_processing_of_holder hw rfl
  | stopped hd hact =>
    have hkept := h.act hp hact l.found fun i _ => ⟨rfl, by simp⟩
    exact ⟨hkept.looked, hkept.fresh⟩
  | @looked i a hw =>
    constructor
    · intro j hj
      by_cases hji : j = i
      · subst hji
        exact ⟨a, hw⟩
      · exact h.looked j (by simpa [hji] using hj)
    · intro j b o (hw' : l.pool.workers[j]? = _) ho
      by_cases hji : j = i
      · subst hji
        cases hw.symm.trans hw'
        simp only [Function.update_self, Option.some.injEq] at ho
        subst ho
        exact .inl rfl
      · exact h.fresh j b o hw' (by simpa [hji] using ho)
  | @finished i a o pool notices hw hf hact =>
    refine h.act hp hact _ fun j hj => ?_
    -- the handler that ends has nothing to keep
    have hji : j ≠ i := by
      rintro rfl
      simp at hj
    refine ⟨Function.update_of_ne hji _ _, fun result heq => ?_⟩
    cases heq
    exact hji rfl
  | worked ha hact =>
    refine h.act hp hact l.found fun i _ => ⟨rfl, ?_⟩
    rintro result rfl
    cases ha

/-! ## Runs -/

/-- What every daemon keeps. -/
structure Sound (setup : Pool.Setup) (l : Live) : Prop where
  /-- its pool is sound -/
  pool : l.pool.Sound setup
  /-- the index by tenant is there -/
  ready : l.store.Ready
  /-- its pool has not been told to stop while it reads -/
  calm : l.Calm
  /-- its handlers do not end on what is out of date -/
  sighted : l.Sighted

theorem sound_fresh (setup : Pool.Setup) (capacity : Nat) : (fresh capacity).Sound setup where
  pool := Pool.sound_fresh setup capacity
  ready := ready_empty
  calm := ⟨fun h => absurd rfl h, fun _ => rfl, .inl rfl⟩
  sighted := ⟨fun _ h => absurd rfl h, fun _ _ _ _ h => by cases h⟩

/-- Every move keeps a daemon sound. The pool is sound by its own theory, and the index by
`Ready.take?`; that the handlers are sighted needs that the daemon is calm. -/
theorem sound_of_turn (h : l.Sound setup) (ht : Turn setup clocks l m seen) : m.Sound setup where
  pool := by
    rcases ht.pool with ⟨a, notices, hact, -⟩ | ⟨heq, -⟩
    · exact Pool.sound_of_act h.pool hact
    · rw [heq]
      exact h.pool
  ready := by
    cases ht with
    | took _ _ htake => exact h.ready.take? htake
    | passed | told | stopped | looked | finished | worked => exact h.ready
  calm := calm_of_turn h.calm ht
  sighted := sighted_of_turn h.sighted h.pool h.calm ht

end Daemon.Live

end ControlLoop
