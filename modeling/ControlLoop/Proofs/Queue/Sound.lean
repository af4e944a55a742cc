import ControlLoop.Queue.Basic

/-!
# Sound queues

What every queue keeps, whoever does what to it: no key waits twice, or waits while it is handed
out; only keys that are handed out are marked; every delayed key has a timer, and a queue that is
shut has none.

Beside the invariant `Queue.Sound` stand the lemmas by which the rest of the theory reads a queue:
what each operation makes of the keys that wait, that are handed out, marked and delayed. No later
proof unfolds an operation of the queue.

The lemmas follow one pattern. An operation is first computed in each of its cases
(`insert_of_mem_queued`, `getWith_of_cons`, `done_of_mem_dirty` and so on), then shown to keep the
queue sound, and then read part by part, with `@[simp]` where a part does not change at all.
-/

namespace ControlLoop

namespace Bell

/-- A ring sends nobody to wait. -/
theorem mem_waiting_of_ring {b : Bell} {t : Ticket} (h : t ∈ b.ring.waiting) : t ∈ b.waiting := by
  unfold ring at h
  split at h
  · next heq =>
    rw [heq]
    exact List.mem_cons_of_mem _ h
  · exact h

end Bell

namespace Queue

/-- What every queue keeps: how its line, its table of keys that wait, its keys that are handed out,
its marks, its delays and its timers go together. -/
structure Sound (q : Queue) : Prop where
  /-- no key waits twice -/
  nodup_pending : q.pending.Nodup
  /-- the keys that wait are kept as a set, too -/
  mem_queued : ∀ key, key ∈ q.queued ↔ key ∈ q.pending
  /-- no key waits while it is handed out -/
  not_mem_pending : ∀ key ∈ q.processing, key ∉ q.pending
  /-- only keys that are handed out are marked -/
  mem_processing : ∀ key ∈ q.dirty, key ∈ q.processing
  /-- a queue that is shut has forgotten the delayed keys -/
  delayed_eq_none : q.closed = true → ∀ key : Key, q.delayed[key]? = none
  /-- every delayed key has a timer -/
  mem_timers : ∀ (key : Key) (d : Moment), q.delayed[key]? = some d → (key, d) ∈ q.timers

/-- A queue in which nothing was ever put is sound. -/
theorem sound_empty : Sound {} where
  nodup_pending := List.nodup_nil
  mem_queued := by simp
  not_mem_pending := by simp
  mem_processing := by simp
  delayed_eq_none := by simp
  mem_timers := by simp

variable {q : Queue} {key other : Key}

/-! ## Putting keys in

Where a key that is put in goes is decided by where it is: a key that is handed out is marked, one
that waits stays where it stands, and any other one comes to the end of the line and rings. Each of
the three has its equation, and everything else about `insert` is shown by these cases. -/

/-- A key may come to the end of the line if it neither waits nor is handed out. -/
theorem Sound.append (h : q.Sound) (hp : key ∉ q.pending) (hout : key ∉ q.processing) : (q.append key).Sound where
  nodup_pending := by
    rw [Queue.append, List.nodup_append]
    refine ⟨h.nodup_pending, by simp, ?_⟩
    rintro a ha b hb rfl
    exact hp (List.mem_singleton.mp hb ▸ ha)
  mem_queued other := by
    have := h.mem_queued other
    simp only [Queue.append, Std.ExtTreeSet.mem_insert, Std.compare_eq_iff_eq, List.mem_append, List.mem_singleton]
    rw [this, or_comm, eq_comm]
  not_mem_pending other ho hw := by
    rcases List.mem_append.mp hw with hw | hw
    · exact h.not_mem_pending other ho hw
    · exact hout (List.mem_singleton.mp hw ▸ ho)
  mem_processing := h.mem_processing
  delayed_eq_none := h.delayed_eq_none
  mem_timers := h.mem_timers

/-- A key that is handed out is marked. -/
theorem insert_of_mem_processing (h : key ∈ q.processing) :
    q.insert key = { q with dirty := q.dirty.insert key } := if_pos h

theorem insert_of_mem_queued (h : key ∉ q.processing) (hw : key ∈ q.queued) : q.insert key = q := by
  rw [insert, if_neg h, if_pos hw]

theorem insert_of_not_mem (h : key ∉ q.processing) (hw : key ∉ q.queued) : q.insert key = q.append key := by
  rw [insert, if_neg h, if_neg hw]

/-- To put a key in keeps the queue sound, wherever the key is. -/
theorem Sound.insert (h : q.Sound) (key : Key) : (q.insert key).Sound := by
  by_cases hout : key ∈ q.processing
  · rw [insert_of_mem_processing hout]
    refine ⟨h.nodup_pending, h.mem_queued, h.not_mem_pending, ?_, h.delayed_eq_none, h.mem_timers⟩
    intro other ho
    rcases Std.ExtTreeSet.mem_insert.mp ho with ho | ho
    · exact Std.compare_eq_iff_eq.mp ho ▸ hout
    · exact h.mem_processing other ho
  · by_cases hw : key ∈ q.queued
    · rw [insert_of_mem_queued hout hw]
      exact h
    · rw [insert_of_not_mem hout hw]
      exact h.append (fun hp => hw ((h.mem_queued key).mpr hp)) hout

/-- Putting a key in does not change which keys are handed out. -/
@[simp] theorem insert_processing (q : Queue) (key : Key) : (q.insert key).processing = q.processing := by
  rw [insert]
  split
  · rfl
  · split <;> rfl

/-- Putting a key in does not change the delays. -/
@[simp] theorem insert_delayed (q : Queue) (key : Key) : (q.insert key).delayed = q.delayed := by
  rw [insert]
  split
  · rfl
  · split <;> rfl

/-- Putting a key in starts no timer and stops none. -/
@[simp] theorem insert_timers (q : Queue) (key : Key) : (q.insert key).timers = q.timers := by
  rw [insert]
  split
  · rfl
  · split <;> rfl

/-- Putting a key in does not shut the queue. -/
@[simp] theorem insert_closed (q : Queue) (key : Key) : (q.insert key).closed = q.closed := by
  rw [insert]
  split
  · rfl
  · split <;> rfl

/-- Nobody goes to wait at the bell when a key is put in. -/
theorem mem_waiting_of_insert {t : Ticket} (h : t ∈ (q.insert key).bell.waiting) : t ∈ q.bell.waiting := by
  rw [insert] at h
  split at h
  · exact h
  · split at h
    · exact h
    · exact Bell.mem_waiting_of_ring h

/-- A key that is put in waits, unless it is handed out. -/
theorem Sound.mem_pending_insert (h : q.Sound) :
    other ∈ (q.insert key).pending ↔ other ∈ q.pending ∨ other = key ∧ key ∉ q.processing := by
  by_cases hout : key ∈ q.processing
  · simp [insert_of_mem_processing hout, hout]
  · by_cases hw : key ∈ q.queued
    · have := (h.mem_queued key).mp hw
      rw [insert_of_mem_queued hout hw]
      constructor
      · exact Or.inl
      · rintro (hp | ⟨rfl, -⟩) <;> assumption
    · rw [insert_of_not_mem hout hw]
      simp [Queue.append, hout]

/-- A key that is put in while it is handed out is marked. -/
theorem mem_dirty_insert : other ∈ (q.insert key).dirty ↔ other ∈ q.dirty ∨ other = key ∧ key ∈ q.processing := by
  by_cases hout : key ∈ q.processing
  · simp [insert_of_mem_processing hout, hout, or_comm, eq_comm (a := key)]
  · by_cases hw : key ∈ q.queued
    · simp [insert_of_mem_queued hout hw, hout]
    · simp [insert_of_not_mem hout hw, append, hout]

/-- A queue that is shut refuses a key, and what would change together with it stays as it is. -/
theorem addWith_of_closed {σ : Type} (h : q.closed = true) (change : σ → σ) (s : σ) :
    q.addWith key change s = .error .queueShutdown := if_pos h

theorem addWith_of_open {σ : Type} (h : q.closed = false) (change : σ → σ) (s : σ) :
    q.addWith key change s = .ok (change s, q.insert key) := by
  simp [addWith, h]

/-! ## Delays

A timer that is set is never taken back, so there may be several for one key, and `delayed` tells
which of them counts. A timer that goes off and does not count is only struck off; one that counts
forgets the delay and puts the key in (`Sound.fire_of_delayed`). -/

/-- Notes a delay and sets its timer. -/
def setTimer (q : Queue) (key : Key) (deadline : Moment) : Queue :=
  { q with delayed := q.delayed.insert key deadline, timers := q.timers ++ [(key, deadline)] }

/-- A queue that is shut refuses a key with a delay as well as one without. -/
theorem addAfter?_of_closed {now : Moment} {delay : Span} (h : q.closed = true) :
    q.addAfter? now key delay = .error .queueShutdown := by
  unfold addAfter?
  split
  · rw [add?, addWith_of_closed h]
    rfl
  · rfl

/-- What a delay does to a queue that is open: it puts the key in at once, or changes nothing since
another delay of the key ends no later, or sets a timer. -/
theorem addAfter?_of_open (h : q.closed = false) (now : Moment) (key : Key) (delay : Span) :
    (delay.nanos = 0 ∧ q.addAfter? now key delay = .ok (q.insert key)) ∨
    (delay.nanos ≠ 0 ∧ (∃ d, q.delayed[key]? = some d ∧ d ≤ now + delay.nanos) ∧ q.addAfter? now key delay = .ok q) ∨
    (delay.nanos ≠ 0 ∧ (∀ d, q.delayed[key]? = some d → now + delay.nanos < d) ∧
      q.addAfter? now key delay = .ok (q.setTimer key (now + delay.nanos))) := by
  unfold addAfter?
  by_cases hz : delay.nanos = 0
  · exact .inl ⟨hz, by rw [if_pos hz, add?, addWith_of_open h]; rfl⟩
  · simp only [if_neg hz, h, Bool.false_eq_true, if_false]
    cases hd : q.delayed[key]? with
    | none => exact .inr (.inr ⟨hz, by simp, by simp [setTimer, h]⟩)
    | some d =>
      by_cases hle : d ≤ now + delay.nanos
      · exact .inr (.inl ⟨hz, ⟨d, rfl, hle⟩, by simp [hle]⟩)
      · exact .inr (.inr ⟨hz, by simpa using hle, by simp [hle, setTimer, h]⟩)

/-- A timer may be set as long as the queue is open; the deadline that is noted is that of a timer
which runs. -/
theorem Sound.setTimer (h : q.Sound) (ho : q.closed = false) (key : Key) (deadline : Moment) :
    (q.setTimer key deadline).Sound where
  nodup_pending := h.nodup_pending
  mem_queued := h.mem_queued
  not_mem_pending := h.not_mem_pending
  mem_processing := h.mem_processing
  delayed_eq_none hc := by
    rw [Queue.setTimer, ho] at hc
    cases hc
  mem_timers other d hd := by
    simp only [Queue.setTimer, Std.ExtTreeMap.getElem?_insert, Std.compare_eq_iff_eq] at hd
    refine List.mem_append.mpr ?_
    split at hd
    · next heq =>
      cases hd
      exact .inr (by simp [heq])
    · exact .inl (h.mem_timers other d hd)

/-- A timer that counts puts its key in; it counts only while the queue is open. -/
theorem Sound.fire_of_delayed (h : q.Sound) {d : Moment} (hd : q.delayed[key]? = some d) :
    q.closed = false ∧
      q.fire key d = { q with timers := q.timers.erase (key, d), delayed := q.delayed.erase key }.insert key := by
  have ho : q.closed = false := by
    cases hc : q.closed with
    | false => rfl
    | true =>
      rw [h.delayed_eq_none hc key] at hd
      cases hd
  exact ⟨ho, by simp [fire, hd, ho]⟩

/-- A timer that does not count is struck off, and nothing else happens. -/
theorem fire_of_not_delayed {d : Moment} (hd : q.delayed[key]? ≠ some d) :
    q.fire key d = { q with timers := q.timers.erase (key, d) } := by
  simp [fire, hd]

/-- No timer shuts the queue, or opens it. -/
@[simp] theorem fire_closed (q : Queue) (key : Key) (d : Moment) : (q.fire key d).closed = q.closed := by
  by_cases hd : q.delayed[key]? = some d
  · cases hc : q.closed <;> simp [fire, hd, hc]
  · rw [fire_of_not_delayed hd]

/-- A delay may be forgotten together with a timer: every other delay keeps its own. -/
theorem Sound.dropDelay (h : q.Sound) (key : Key) (d : Moment) :
    ({ q with timers := q.timers.erase (key, d), delayed := q.delayed.erase key } : Queue).Sound := by
  refine ⟨h.nodup_pending, h.mem_queued, h.not_mem_pending, h.mem_processing, ?_, ?_⟩
  · intro hc other
    simp [Std.ExtTreeMap.getElem?_erase, h.delayed_eq_none hc other]
  · intro other e he
    simp only [Std.ExtTreeMap.getElem?_erase, Std.compare_eq_iff_eq] at he
    split at he
    · cases he
    · next hne =>
      refine (List.mem_erase_of_ne ?_).mpr (h.mem_timers other e he)
      rintro ⟨⟩
      exact hne rfl

/-- A timer may go off at any moment. -/
theorem Sound.fire (h : q.Sound) (key : Key) (d : Moment) : (q.fire key d).Sound := by
  by_cases hd : q.delayed[key]? = some d
  · rw [(h.fire_of_delayed hd).2]
    exact (h.dropDelay key d).insert key
  · rw [fire_of_not_delayed hd]
    refine ⟨h.nodup_pending, h.mem_queued, h.not_mem_pending, h.mem_processing, h.delayed_eq_none, ?_⟩
    intro other e he
    refine (List.mem_erase_of_ne ?_).mpr (h.mem_timers other e he)
    rintro ⟨⟩
    exact hd he

/-! ## Taking keys out

Whoever asks for a key gets the first one, is told that there will be no more, or waits. The three
answers exclude each other, and each of them comes with the queue that is left. -/

/-- The queue after its first key has been handed out. -/
def handOut (q : Queue) (ticket : Ticket) (key : Key) (rest : List Key) : Queue :=
  { q with
    pending := rest, queued := q.queued.erase key, processing := q.processing.insert key,
    bell := q.bell.arrive ticket }

section getWith

variable {σ ρ : Type} {take : Key → σ → ρ × σ} {s : σ} {ticket : Ticket}

/-- Whoever asks while a key waits is handed the first one, together with what `take` finds for
it. -/
theorem getWith_of_cons {rest : List Key} (h : q.pending = key :: rest) :
    q.getWith ticket take s = (.taken key (take key s).1, (take key s).2, q.handOut ticket key rest) := by
  simp [getWith, h, handOut]

/-- Whoever asks a queue that is shut and empty is told that there will be no more keys. -/
theorem getWith_of_closed (h : q.pending = []) (hc : q.closed = true) :
    q.getWith ticket take s = (.closed, s, { q with bell := q.bell.arrive ticket }) := by
  simp [getWith, h, hc]

/-- Whoever asks an open queue that is empty goes to wait at the bell. -/
theorem getWith_of_open (h : q.pending = []) (ho : q.closed = false) :
    q.getWith ticket take s = (.waiting, s, { q with bell := (q.bell.arrive ticket).wait ticket }) := by
  simp [getWith, h, ho]

end getWith

/-- The first key may be handed out: it waited once only, so it waits no longer. -/
theorem Sound.handOut (h : q.Sound) {rest : List Key} (hp : q.pending = key :: rest) (ticket : Ticket) :
    (q.handOut ticket key rest).Sound := by
  have hnodup := h.nodup_pending
  rw [hp, List.nodup_cons] at hnodup
  refine ⟨hnodup.2, ?_, ?_, ?_, h.delayed_eq_none, h.mem_timers⟩
  · intro other
    simp only [Queue.handOut, Std.ExtTreeSet.mem_erase, ne_eq, Std.compare_eq_iff_eq, h.mem_queued, hp, List.mem_cons]
    constructor
    · rintro ⟨hne, rfl | hr⟩
      · exact absurd rfl hne
      · exact hr
    · intro hr
      refine ⟨?_, .inr hr⟩
      rintro rfl
      exact hnodup.1 hr
  · intro other ho hr
    rcases Std.ExtTreeSet.mem_insert.mp ho with ho | ho
    · exact hnodup.1 (Std.compare_eq_iff_eq.mp ho ▸ hr)
    · exact h.not_mem_pending other ho (hp ▸ List.mem_cons_of_mem key hr)
  · intro other ho
    exact Std.ExtTreeSet.mem_insert.mpr (.inr (h.mem_processing other ho))

theorem Sound.setBell (h : q.Sound) (bell : Bell) : ({ q with bell } : Queue).Sound :=
  ⟨h.nodup_pending, h.mem_queued, h.not_mem_pending, h.mem_processing, h.delayed_eq_none, h.mem_timers⟩

/-! ## Giving keys back

A key that is given back comes to the end of the line if it was marked. It did not wait while it was
handed out, so it stands there once. -/

/-- A key that was marked comes to the end of the line when it is given back. -/
theorem done_of_mem_dirty (h : key ∈ q.dirty) :
    q.done key = ({ q with processing := q.processing.erase key, dirty := q.dirty.erase key } : Queue).append key :=
  if_pos h

theorem done_of_not_mem_dirty (h : key ∉ q.dirty) :
    q.done key = { q with processing := q.processing.erase key } := if_neg h

/-- A key may be given back at any time, also one that was never handed out. -/
theorem Sound.done (h : q.Sound) (key : Key) : (q.done key).Sound := by
  by_cases hd : key ∈ q.dirty
  · rw [done_of_mem_dirty hd]
    -- a marked key is handed out, so it does not wait yet
    have hout := h.mem_processing key hd
    refine Sound.append ?_ (h.not_mem_pending key hout) (by simp)
    refine ⟨h.nodup_pending, h.mem_queued, ?_, ?_, h.delayed_eq_none, h.mem_timers⟩
    · intro other ho
      exact h.not_mem_pending other (Std.ExtTreeSet.mem_of_mem_erase ho)
    · intro other ho
      obtain ⟨hne, ho⟩ := Std.ExtTreeSet.mem_erase.mp ho
      exact Std.ExtTreeSet.mem_erase.mpr ⟨hne, h.mem_processing other ho⟩
  · rw [done_of_not_mem_dirty hd]
    refine ⟨h.nodup_pending, h.mem_queued, ?_, ?_, h.delayed_eq_none, h.mem_timers⟩
    · intro other ho
      exact h.not_mem_pending other (Std.ExtTreeSet.mem_of_mem_erase ho)
    · intro other ho
      refine Std.ExtTreeSet.mem_erase.mpr ⟨?_, h.mem_processing other ho⟩
      intro heq
      exact hd (Std.compare_eq_iff_eq.mp heq ▸ ho)

/-- A key that is given back is not handed out any more; the others still are. -/
@[simp] theorem done_processing (q : Queue) (key : Key) : (q.done key).processing = q.processing.erase key := by
  by_cases hd : key ∈ q.dirty
  · rw [done_of_mem_dirty hd]
    rfl
  · rw [done_of_not_mem_dirty hd]

/-- Giving a key back does not change the delays. -/
@[simp] theorem done_delayed (q : Queue) (key : Key) : (q.done key).delayed = q.delayed := by
  by_cases hd : key ∈ q.dirty
  · rw [done_of_mem_dirty hd]
    rfl
  · rw [done_of_not_mem_dirty hd]

/-- Giving a key back does not shut the queue. -/
@[simp] theorem done_closed (q : Queue) (key : Key) : (q.done key).closed = q.closed := by
  by_cases hd : key ∈ q.dirty
  · rw [done_of_mem_dirty hd]
    rfl
  · rw [done_of_not_mem_dirty hd]

theorem mem_waiting_of_done {t : Ticket} (h : t ∈ (q.done key).bell.waiting) : t ∈ q.bell.waiting := by
  by_cases hd : key ∈ q.dirty
  · rw [done_of_mem_dirty hd] at h
    exact Bell.mem_waiting_of_ring h
  · rwa [done_of_not_mem_dirty hd] at h

/-- To give a key back takes nothing out of the line; it may add to its end. -/
theorem done_pending (q : Queue) (key : Key) : ∃ more, (q.done key).pending = q.pending ++ more := by
  by_cases hd : key ∈ q.dirty
  · exact ⟨[key], by rw [done_of_mem_dirty hd]; rfl⟩
  · exact ⟨[], by rw [done_of_not_mem_dirty hd, List.append_nil]⟩

theorem mem_pending_done : other ∈ (q.done key).pending ↔ other ∈ q.pending ∨ other = key ∧ key ∈ q.dirty := by
  by_cases hd : key ∈ q.dirty
  · simp [done_of_mem_dirty hd, append, hd]
  · simp [done_of_not_mem_dirty hd, hd]

/-- The mark of the key is gone, and no other. -/
theorem mem_dirty_done : other ∈ (q.done key).dirty ↔ other ∈ q.dirty ∧ other ≠ key := by
  by_cases hd : key ∈ q.dirty
  · simp [done_of_mem_dirty hd, append, and_comm, eq_comm (a := key)]
  · simp only [done_of_not_mem_dirty hd, iff_self_and]
    rintro ho rfl
    exact hd ho

/-! ## Shutting

A queue that is shut keeps its line and its marks, and gives up its delays. The timers go on
running, and find nothing to do. -/

/-- Shutting an open queue returns the keys that were delayed, forgets their delays and calls
everybody. -/
theorem shutDown_of_open (h : q.closed = false) :
    q.shutDown =
      (q.delayed.keys, { q with closed := true, delayed := ∅, bell := q.bell.ringAll }) := by
  simp [shutDown, h]

/-- To shut a queue keeps it sound, also if it is shut already. -/
theorem Sound.shutDown (h : q.Sound) : q.shutDown.2.Sound := by
  unfold Queue.shutDown
  split
  · exact h
  · exact ⟨h.nodup_pending, h.mem_queued, h.not_mem_pending, h.mem_processing, by simp, by simp⟩

end Queue

end ControlLoop
