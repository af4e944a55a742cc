import ControlLoop.Proofs.Queue.Deliveries

/-!
# How a queue that is shut runs dry

A queue that is shut still hands out what waits in it, and keys that are marked come to wait again
when they are given back; meanwhile clients go on putting keys in and timers go off. That there is
an end to it all the same is told by its load: how many keys wait or are marked. Whatever is done to
a queue that is shut, its load goes down by one for each key that it hands out, and does not change
otherwise (`load_of_step`). So it hands out no more keys than its load was when it was shut
(`shut_queue_drains`).
-/

namespace ControlLoop.Queue

/-- How many keys a queue has still to hand out if no more are put in: those that wait, and those
that are marked while they are handed out. -/
def load (q : Queue) : Nat := q.pending.length + q.dirty.size

variable {σ : Type} {q r : Queue} {s : σ × Queue} {a : Action σ} {events : History} {key : Key}

/-! ## The load

A key that is handed out leaves the load. To give a key back moves it from the marked ones to those
that wait, if it was marked, and changes nothing in their number. So for a queue that is shut, where
no step puts a key in, the load counts the deliveries down. -/

/-- To take a mark away leaves one mark less. -/
theorem size_erase_of_mem {names : Names} (h : key ∈ names) : (names.erase key).size + 1 = names.size := by
  have hpos : names.size ≠ 0 := by
    rw [ne_eq, ← Std.ExtTreeSet.eq_empty_iff_size_eq_zero]
    rintro rfl
    exact Std.ExtTreeSet.not_mem_empty h
  rw [Std.ExtTreeSet.size_erase, if_pos (Std.ExtTreeSet.mem_iff_contains.mp h)]
  exact Nat.sub_add_cancel (Nat.one_le_iff_ne_zero.mpr hpos)

theorem load_handOut {rest : List Key} (hp : q.pending = key :: rest) (ticket : Ticket) :
    (q.handOut ticket key rest).load + 1 = q.load := by
  simp only [load, handOut, hp, List.length_cons]
  omega

/-- A key that is given back waits instead of being marked. -/
theorem load_done (q : Queue) (key : Key) : (q.done key).load = q.load := by
  by_cases hd : key ∈ q.dirty
  · have hsize := size_erase_of_mem hd
    simp only [done_of_mem_dirty hd, load, append, List.length_append, List.length_singleton]
    omega
  · rw [done_of_not_mem_dirty hd]
    rfl

/-- The load of a queue that is shut goes down by one for each key that is handed out. -/
theorem load_of_step (hc : q.closed = true) (hs : Step q a events r) :
    (deliveries events).length + r.load = q.load := by
  have hopen : q.closed ≠ false := by simp [hc]
  cases hs with
  | handedOut ticket take key rest hp =>
    rw [← load_handOut hp ticket]
    exact Nat.add_comm ..
  | givenBack key => exact (Nat.zero_add _).trans (load_done q key)
  | refused | lapsed | toldClosed | left | shutAgain => exact Nat.zero_add _
  | added _ ho | addedWith _ _ ho | addedAtOnce _ _ _ ho | outrun _ _ _ _ ho | timed _ _ _ ho | released _ _ ho
    | toldToWait _ _ _ ho | shut ho => exact absurd ho hopen

/-- What was handed out in two parts of a history, the earlier one first. -/
theorem deliveries_append (later earlier : History) :
    deliveries (later ++ earlier) = deliveries earlier ++ deliveries later := by
  induction later with
  | nil => exact (List.append_nil _).symm
  | cons e later ih => cases e <;> simp [deliveries, ih]

/-- The load of a queue that was shut is what has been handed out since, and what is still to be
handed out. -/
theorem load_of_actions (hq : s.2.Sound) (hc : s.2.closed = true) (actions : List (Action σ)) :
    (deliveries (historyFrom s actions)).length + (actions.foldl act s).2.load = s.2.load := by
  induction actions generalizing s with
  | nil => exact Nat.zero_add _
  | cons a actions ih =>
    have hstep := load_of_step hc (step_of_act hq a)
    have hrest := ih (hq.act a) (closed_act hc a)
    rw [historyFrom, deliveries_append, List.length_append, List.foldl_cons]
    omega

/-! ## Shutting, and what is left after it

The run is cut where the queue is shut for the first time. Up to there it is open
(`open_of_actions`), so shutting it takes effect (`Shuts`), and from there it is shut, so every
action drains it (`Drains`). -/

/-- A queue that is shut for the first time tells which keys were delayed, and changes nothing for
the others: keys that wait or are marked are still handed out. -/
structure Shuts (q : Queue) : Prop where
  /-- no delayed key is told twice -/
  nodup : q.shutDown.1.Nodup
  /-- the delayed keys and no others are told -/
  mem_iff : ∀ key, key ∈ q.shutDown.1 ↔ key ∈ q.delayed
  /-- what waits stays -/
  pending_eq : q.shutDown.2.pending = q.pending
  /-- what is handed out stays -/
  processing_eq : q.shutDown.2.processing = q.processing
  /-- what is marked stays -/
  dirty_eq : q.shutDown.2.dirty = q.dirty

/-- What shutting does to an open queue. -/
theorem shuts_of_open (ho : q.closed = false) : q.Shuts := by
  have heq := shutDown_of_open ho
  constructor
  case nodup =>
    rw [heq]
    exact Std.ExtTreeMap.nodup_keys
  case mem_iff =>
    intro key
    rw [heq]
    exact Std.ExtTreeMap.mem_keys
  all_goals rw [heq]

theorem Shuts.load_eq (h : q.Shuts) : q.shutDown.2.load = q.load := by
  rw [load, h.pending_eq, h.dirty_eq, load]

/-- A queue that is shut: nothing but taking keys out and giving them back has an effect on it, each
delivery lowers its load, and whoever asks is sent away exactly when no key waits. -/
structure Drains (s : σ × Queue) : Prop where
  /-- no key is taken, and nothing is changed with it -/
  addWith_eq : ∀ key (change : σ → σ), s.2.addWith key change s.1 = .error .queueShutdown
  /-- no key is taken -/
  add?_eq : ∀ key, s.2.add? key = .error .queueShutdown
  /-- no key is taken for later -/
  addAfter?_eq : ∀ now key delay, s.2.addAfter? now key delay = .error .queueShutdown
  /-- a key that is not taken leaves everything as it is -/
  act_eq : ∀ a : Action σ, a.isEntry = true → act s a = s
  /-- a timer that goes off is gone, and that is all -/
  fire_eq : ∀ key d, s.2.fire key d = { s.2 with timers := s.2.timers.erase (key, d) }
  /-- to shut it again tells nothing and changes nothing -/
  shutDown_eq : s.2.shutDown = ([], s.2)
  /-- nothing adds to the load -/
  load_le : ∀ a : Action σ, (act s a).2.load ≤ s.2.load
  /-- a key that is handed out takes one off the load -/
  load_taken : ∀ {ρ : Type} ticket (take : Key → σ → ρ × σ) key extra,
    (s.2.getWith ticket take s.1).1 = .taken key extra → (s.2.getWith ticket take s.1).2.2.load + 1 = s.2.load
  /-- there are no more keys when none waits, and only then -/
  closed_iff : ∀ {ρ : Type} ticket (take : Key → σ → ρ × σ),
    (s.2.getWith ticket take s.1).1 = .closed ↔ s.2.pending = []

/-- A sound queue that is shut is drained, whatever is done to it: what puts keys in is refused, and
only handing out takes load off. -/
theorem Sound.drains (hq : s.2.Sound) (hc : s.2.closed = true) : Drains s where
  addWith_eq _ change := addWith_of_closed hc change s.1
  add?_eq key := by
    rw [add?, addWith_of_closed hc]
    rfl
  addAfter?_eq _ _ _ := addAfter?_of_closed hc
  act_eq _ ha := act_of_closed hc ha
  fire_eq key d := by
    refine fire_of_not_delayed ?_
    rw [hq.delayed_eq_none hc key]
    exact (Option.some_ne_none d).symm
  shutDown_eq := if_pos hc
  load_le a := by
    rw [← load_of_step hc (step_of_act hq a)]
    exact Nat.le_add_left ..
  load_taken ticket take key extra htaken := by
    cases hp : s.2.pending with
    | cons key rest =>
      rw [getWith_of_cons hp]
      exact load_handOut hp ticket
    | nil =>
      rw [getWith_of_closed hp hc] at htaken
      cases htaken
  closed_iff ticket take := by
    cases hp : s.2.pending with
    | cons key rest => simp [getWith_of_cons hp]
    | nil => simp [getWith_of_closed hp hc]

/-- Only to shut a queue closes it. -/
theorem closed_of_step (ho : q.closed = false) (ha : a ≠ .shutDown) (hs : Step q a events r) : r.closed = false := by
  cases hs with
  | added key | addedWith key | addedAtOnce _ key => exact (insert_closed q key).trans ho
  | released key => exact (insert_closed _ key).trans ho
  | givenBack key => exact (done_closed q key).trans ho
  | refused | outrun | timed | lapsed | handedOut | toldClosed | toldToWait | left | shutAgain => exact ho
  | shut => exact absurd rfl ha

/-- A queue is open after actions none of which shuts it. -/
theorem open_of_actions (beside : σ) {actions : List (Action σ)} (h : .shutDown ∉ actions) :
    (run beside actions).2.closed = false := by
  have hkeep : ∀ s : σ × Queue, s.2.Sound → s.2.closed = false → (actions.foldl act s).2.closed = false := by
    induction actions with
    | nil => exact fun _ _ ho => ho
    | cons a actions ih =>
      intro s hq ho
      obtain ⟨ha, hrest⟩ := not_or.mp (mt List.mem_cons.mpr h)
      exact ih hrest _ (hq.act a) (closed_of_step ho (Ne.symm ha) (step_of_act hq a))
  exact hkeep _ sound_empty rfl

/-- **A queue that is shut runs dry**: when it is shut for the first time it tells which keys were
delayed and keeps all others. Whatever is done to it from then on, it takes no key, its timers find
nothing to do, and it has handed out as many keys as its load has gone down since; so these are at
most as many as its load was when it was shut. -/
theorem shut_queue_drains (beside : σ) (earlier later : List (Action σ)) (hfirst : .shutDown ∉ earlier) :
    (run beside earlier).2.Shuts ∧ Drains (run beside (earlier ++ .shutDown :: later)) ∧
      (deliveries (historyFrom (run beside (earlier ++ [.shutDown])) later)).length +
        (run beside (earlier ++ .shutDown :: later)).2.load = (run beside earlier).2.load := by
  have hshuts := shuts_of_open (open_of_actions beside hfirst)
  have hq := sound_of_actions beside (earlier ++ [.shutDown])
  have hc : (run beside (earlier ++ [.shutDown])).2.closed = true := closed_of_shutDown (by simp)
  have hsplit : run beside (earlier ++ .shutDown :: later) = later.foldl act (run beside (earlier ++ [.shutDown])) := by
    rw [List.append_cons, run, List.foldl_append]
    rfl
  have hload : (run beside (earlier ++ [.shutDown])).2.load = (run beside earlier).2.load := by
    rw [run, List.foldl_append]
    exact hshuts.load_eq
  refine ⟨hshuts, ?_, ?_⟩
  · exact (sound_of_actions beside _).drains (closed_of_shutDown (by simp))
  · rw [hsplit, load_of_actions hq hc later, hload]

/-- A key waits, another is marked while it is handed out, and a third is delayed when the queue is
shut. Both are handed out then, and nothing else is, though a client goes on putting a key in and
the timer goes off. -/
theorem shut_queue_drains_of_marked :
    ∃ (earlier later : List (Action Nat)), .shutDown ∉ earlier ∧
      (run 0 earlier).2.shutDown.1 = ["c"] ∧ (run 0 earlier).2.load = 2 ∧
      Drains (run 0 (earlier ++ .shutDown :: later)) ∧
      (run 0 (earlier ++ .shutDown :: later)).1 = 3 ∧
      deliveries (historyFrom (run 0 (earlier ++ [.shutDown])) later) = ["b", "a"] ∧
      (run 0 (earlier ++ .shutDown :: later)).2.load = 0 := by
  let bump : Action Nat := .addWith "a" (· + 1)
  let ask : Action Nat := .getWith 0 fun _ n => n
  let earlier := [bump, ask, bump, bump, .add "b", .addAfter 0 "c" (Span.ofMillis 100)]
  let later := [bump, ask, .fire "c" (100 * 10 ^ 6), .done "a", .add "d", ask, .done "b", .shutDown, .done "a", ask]
  have hfirst : .shutDown ∉ earlier := by simp [earlier, bump, ask]
  obtain ⟨-, hdrains, hload⟩ := shut_queue_drains 0 earlier later hfirst
  have hseen : ((run 0 earlier).2.shutDown.1, (run 0 earlier).2.load, (run 0 (earlier ++ .shutDown :: later)).1,
      deliveries (historyFrom (run 0 (earlier ++ [.shutDown])) later)) = (["c"], 2, 3, ["b", "a"]) := by
    decide +kernel
  simp only [Prod.mk.injEq] at hseen
  obtain ⟨htold, hbefore, hbeside, hhanded⟩ := hseen
  refine ⟨earlier, later, hfirst, htold, hbefore, hdrains, hbeside, hhanded, ?_⟩
  rw [hhanded, hbefore] at hload
  simpa using hload

end ControlLoop.Queue
