import ControlLoop.Proofs.Queue.Sound

/-!
# Runs of a queue

Any number of clients and timers share a queue, and whatever one of them does, it has the queue to
itself meanwhile. So a run of a queue is a list of actions, in any order: keys that were never
handed out are given back, timers go off that gave way to shorter delays long ago, and the queue is
shut at any moment, or twice. `Queue.Sound` holds all the same after each of them.
-/

namespace ControlLoop.Queue

/-- What a client or a timer does to a queue. Clients keep something of type `σ` beside the queue,
which they may change while they put a key in or take one out. -/
inductive Action (σ : Type) where
  /-- a key is put in -/
  | add (key : Key)
  /-- a key is put in, and with it something changes beside the queue -/
  | addWith (key : Key) (change : σ → σ)
  /-- a key is to be put in after a delay, which begins at the moment `now` -/
  | addAfter (now : Moment) (key : Key) (delay : Span)
  /-- a timer goes off -/
  | fire (key : Key) (deadline : Moment)
  /-- somebody asks for a key, and with it something changes beside the queue -/
  | getWith (ticket : Ticket) (take : Key → σ → σ)
  /-- one who waits for a key gives up -/
  | abandon (ticket : Ticket)
  /-- somebody is done with a key, be it handed out or not -/
  | done (key : Key)
  /-- the queue is shut -/
  | shutDown

variable {σ : Type} {q : Queue} {key : Key}

/-- What is beside a queue, and the queue, after an action. -/
def act (s : σ × Queue) : Action σ → σ × Queue
  | .add key => (s.1, s.2.add key)
  | .addWith key change =>
    match s.2.addWith key change s.1 with
    | .ok t => t
    | .error _ => s
  | .addAfter now key delay => (s.1, s.2.addAfter now key delay)
  | .fire key deadline => (s.1, s.2.fire key deadline)
  | .getWith ticket take => (s.2.getWith ticket (fun key beside => ((), take key beside)) s.1).2
  | .abandon ticket => (s.1, s.2.abandon ticket)
  | .done key => (s.1, s.2.done key)
  | .shutDown => (s.1, s.2.shutDown.2)

/-- What is beside a queue, and the queue, after some actions; at first the queue is empty. -/
def run (beside : σ) (actions : List (Action σ)) : σ × Queue := actions.foldl act (beside, {})

/-! ## One action

Of each action it is shown here that it keeps the queue sound. Nothing is assumed of the action: the
key may be any key, and the ticket anybody's. -/

theorem add_of_closed (h : q.closed = true) (key : Key) : q.add key = q := by
  simp [add, add?, addWith_of_closed h, Except.map]

theorem add_of_open (h : q.closed = false) (key : Key) : q.add key = q.insert key := by
  simp [add, add?, addWith_of_open h, Except.map]

/-- A queue stays sound when a key is put in, be it open or shut. -/
theorem Sound.add (h : q.Sound) (key : Key) : (q.add key).Sound := by
  cases hc : q.closed with
  | true => exact (add_of_closed hc key).symm ▸ h
  | false => exact (add_of_open hc key).symm ▸ h.insert key

/-- A queue stays sound when a key is put in after a delay, whichever of the cases of the delay it
is. -/
theorem Sound.addAfter (h : q.Sound) (now : Moment) (key : Key) (delay : Span) : (q.addAfter now key delay).Sound := by
  unfold Queue.addAfter
  cases hc : q.closed with
  | true =>
    rw [addAfter?_of_closed hc]
    exact h
  | false =>
    rcases addAfter?_of_open hc now key delay with ⟨-, heq⟩ | ⟨-, -, heq⟩ | ⟨-, -, heq⟩
    · rw [heq]
      exact h.insert key
    · rw [heq]
      exact h
    · rw [heq]
      exact h.setTimer hc key _

/-- A queue stays sound when somebody asks for a key, whether there is one or not. -/
theorem Sound.getWith (h : q.Sound) {ρ : Type} (ticket : Ticket) (take : Key → σ → ρ × σ) (beside : σ) :
    (q.getWith ticket take beside).2.2.Sound := by
  cases hp : q.pending with
  | cons key rest =>
    rw [getWith_of_cons hp]
    exact h.handOut hp ticket
  | nil =>
    cases hc : q.closed with
    | true =>
      rw [getWith_of_closed hp hc]
      exact h.setBell _
    | false =>
      rw [getWith_of_open hp hc]
      exact h.setBell _

/-- Every action keeps a queue sound. -/
theorem Sound.act {s : σ × Queue} (h : s.2.Sound) (a : Action σ) : (Queue.act s a).2.Sound := by
  cases a with
  | add key => exact h.add key
  | addWith key change =>
    rw [Queue.act]
    cases hc : s.2.closed with
    | true =>
      rw [addWith_of_closed hc]
      exact h
    | false =>
      rw [addWith_of_open hc]
      exact h.insert key
  | addAfter now key delay => exact h.addAfter now key delay
  | fire key deadline => exact h.fire key deadline
  | getWith ticket take => exact h.getWith ticket _ s.1
  | abandon ticket => exact h.setBell _
  | done key => exact h.done key
  | shutDown => exact h.shutDown

/-- A key that is not handed out is given back without effect: it is not marked either. -/
theorem Sound.done_of_not_mem (h : q.Sound) (hkey : key ∉ q.processing) : q.done key = q := by
  rw [done_of_not_mem_dirty (mt (h.mem_processing key) hkey)]
  have herase : q.processing.erase key = q.processing := by
    refine Std.ExtTreeSet.ext_mem fun other => ?_
    rw [Std.ExtTreeSet.mem_erase, ne_eq, Std.compare_eq_iff_eq, and_iff_right_iff_imp]
    rintro ho rfl
    exact hkey ho
  rw [herase]

/-! ## Shutting for good

The flag that says that a queue is shut is set by one operation and taken back by none. -/

/-- Nobody shuts a queue by asking for a key. -/
theorem closed_getWith {ρ : Type} (q : Queue) (ticket : Ticket) (take : Key → σ → ρ × σ) (beside : σ) :
    (q.getWith ticket take beside).2.2.closed = q.closed := by
  cases hp : q.pending with
  | cons key rest => rw [getWith_of_cons hp, handOut]
  | nil =>
    cases hc : q.closed with
    | true => rw [getWith_of_closed hp hc, hc]
    | false => rw [getWith_of_open hp hc, hc]

theorem closed_shutDown (q : Queue) : q.shutDown.2.closed = true := by
  cases hc : q.closed with
  | true => simp [shutDown, hc]
  | false => rw [shutDown_of_open hc]

/-- No action opens a queue that is shut. -/
theorem closed_act {s : σ × Queue} (h : s.2.closed = true) (a : Action σ) : (act s a).2.closed = true := by
  cases a with
  | add key => exact (congrArg closed (add_of_closed h key)).trans h
  | addWith key change =>
    rw [act, addWith_of_closed h]
    exact h
  | addAfter now key delay =>
    simp only [act, addAfter, addAfter?_of_closed h]
    exact h
  | fire key deadline => exact (fire_closed s.2 key deadline).trans h
  | getWith ticket take => exact (closed_getWith s.2 ticket _ s.1).trans h
  | abandon ticket => exact h
  | done key => exact (done_closed s.2 key).trans h
  | shutDown => exact closed_shutDown s.2

/-! ## Whole runs -/

/-- A queue is sound after any actions, whoever does them in whatever order. -/
theorem sound_of_actions (beside : σ) (actions : List (Action σ)) : (run beside actions).2.Sound := by
  have hkeep : ∀ s : σ × Queue, s.2.Sound → (actions.foldl act s).2.Sound := by
    induction actions with
    | nil => exact fun s h => h
    | cons a actions ih => exact fun s h => ih _ (h.act a)
  exact hkeep _ sound_empty

theorem closed_of_actions {s : σ × Queue} (h : s.2.closed = true) (actions : List (Action σ)) :
    (actions.foldl act s).2.closed = true := by
  induction actions generalizing s with
  | nil => exact h
  | cons a actions ih => exact ih (closed_act h a)

/-- A queue is shut after actions among which it was shut. -/
theorem closed_of_shutDown {beside : σ} {actions : List (Action σ)} (h : .shutDown ∈ actions) :
    (run beside actions).2.closed = true := by
  obtain ⟨before, later, rfl⟩ := List.append_of_mem h
  have hclosed : (act (before.foldl act (beside, {})) .shutDown).2.closed = true := closed_shutDown _
  rw [run, List.foldl_append]
  exact closed_of_actions hclosed later

/-- What is true of a queue at every moment: no key waits twice, or is handed out while it waits,
marks are on keys that are handed out, and delays and timers go together. -/
structure Orderly (q : Queue) : Prop extends q.Sound where
  /-- to give back a key that is not handed out changes nothing -/
  done_eq : ∀ key, key ∉ q.processing → q.done key = q

/-- **The queue keeps its books**: after every run, whoever did what in whatever order, no key waits
twice or while it is handed out, the set of the keys that wait has these and no others, only keys
that are handed out are marked, and every delayed key has a timer for its very moment; once the
queue was shut no key is ever delayed. So a key that is not handed out may be given back without
effect. -/
theorem queue_keeps_its_books (beside : σ) (actions : List (Action σ)) :
    (run beside actions).2.Orderly ∧ (.shutDown ∈ actions → (run beside actions).2.delayed = ∅) := by
  have h := sound_of_actions beside actions
  refine ⟨⟨h, fun key hkey => h.done_of_not_mem hkey⟩, fun hshut => ?_⟩
  refine Std.ExtTreeMap.ext_getElem? fun key => ?_
  rw [h.delayed_eq_none (closed_of_shutDown hshut) key, Std.ExtTreeMap.getElem?_empty]

/-- A key comes again while it is handed out, another is delayed, and then for less, and the queue
is shut before its timers go off. The first waits when it is given back, the second is forgotten,
and giving it back changes nothing. -/
theorem queue_keeps_its_books_when_shut :
    ∃ q, run 0 [.addWith "a" (· + 1), .getWith 0 fun _ n => n, .addAfter 0 "b" (Span.ofMillis 100),
        .addAfter 0 "b" (Span.ofMillis 50), .addWith "a" (· + 1), .shutDown, .fire "b" (50 * 10 ^ 6), .add "c",
        .done "a", .addWith "b" (· + 1)] = (2, q) ∧
      q.pending = ["a"] ∧ q.timers = [("b", 100 * 10 ^ 6)] ∧ q.delayed = ∅ ∧ q.done "b" = q := by
  generalize hr : run 0 _ = r
  have hseen : (r.1, r.2.pending, r.2.timers, decide ("b" ∈ r.2.processing)) =
      (2, ["a"], [("b", 100 * 10 ^ 6)], false) := by
    rw [← hr]
    decide +kernel
  obtain ⟨beside, q⟩ := r
  simp only [Prod.mk.injEq, decide_eq_false_iff_not] at hseen
  obtain ⟨rfl, hpending, htimers, hout⟩ := hseen
  obtain ⟨horderly, hforgotten⟩ := hr ▸ queue_keeps_its_books 0 _
  exact ⟨q, rfl, hpending, htimers, hforgotten (by simp), horderly.done_eq "b" hout⟩

end ControlLoop.Queue
