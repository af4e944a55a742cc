import ControlLoop.Proofs.Queue.Events

/-!
# Between the steps of an operation

Clients run at the same time, and an operation of the queue is not over in one step. Whoever changes
the keys of a queue has it alone meanwhile, but rings only after letting go of it; others may come
in between. Whoever wants a key first takes a place in the line, and only then looks whether a key
waits; a ring in between calls somebody who may not even wait. A called one has to come back, and
may find that another was faster. Whoever has a key still has to leave the line, and may be called
on the way out. And one who waits may give up at any time.

A `Hall` is a queue together with those who are in the middle of something. Its moves are the single
steps; those which clients and timers begin are told from those that go on by themselves. Done
without a break, the steps of an operation come to what the queue makes of it (`change_in_one_go`,
`ask_in_one_go`); to give up is one step anyhow.

The `Move`s are the places where another client may come in: `change` is what `add`, `add_with`,
`add_after`, `done`, `shut_down` and a timer do while they have the `WorkQueue` for themselves,
`ring` and `callAll` are the calls of its `Notify` that follow, and `enter`, `look` and `leave` are
the three parts of `get_with`: to enable the future of the next ring, to look whether a key waits,
and to drop the future.
-/

namespace ControlLoop

namespace Bell

/-- A ticket is put in the line; a remembered ring is used up instead. -/
def enter (b : Bell) (t : Ticket) : Bell := if b.permit then { b with permit := false } else b.wait t

/-- A ticket is given back, and no call is passed on. -/
def slip (b : Bell) (t : Ticket) : Bell := { b with waiting := b.waiting.erase t, called := b.called.erase t }

/-- A ticket is given back. A call that was meant for everybody is not passed on. -/
def drop (b : Bell) (t : Ticket) (quietly : Bool) : Bell := if quietly then b.slip t else b.leave t

variable {b : Bell} {t : Ticket}

theorem leave_of_not_called (h : t ∉ b.called) : b.leave t = { b with waiting := b.waiting.erase t } := if_neg h

theorem erase_append_singleton {line : List Ticket} (h : t ∉ line) : (line ++ [t]).erase t = line := by
  rw [List.erase_append_right _ h, List.erase_cons_head, List.append_nil]

/-- Whoever takes a place in the line and gives it back has been at the queue. -/
theorem drop_enter (hw : t ∉ b.waiting) (hc : t ∉ b.called) : (b.enter t).drop t false = b.arrive t := by
  have hleave : (b.enter t).drop t false = { b.enter t with waiting := (b.enter t).waiting.erase t } := by
    refine leave_of_not_called ?_
    unfold enter
    split <;> exact hc
  rw [hleave, arrive, List.erase_of_not_mem hc, enter]
  split
  · rw [List.erase_of_not_mem hw]
  · next hp => simp only [wait, erase_append_singleton hw, Bool.eq_false_iff.mpr hp]

end Bell

namespace Queue

/-- Does the action change the keys of a queue? -/
def Action.isChange {σ : Type} : Action σ → Bool
  | .add _ | .addWith .. | .addAfter .. | .fire .. | .done _ | .shutDown => true
  | .getWith .. | .abandon _ => false

/-- A `WorkQueue` together with those who are in the middle of one of its operations: a hall with a
line in front of a counter, where everybody has a ticket. -/
structure Hall (σ : Type) where
  /-- what clients keep beside the queue -/
  beside : σ
  /-- the queue -/
  queue : Queue := {}
  /-- how many have come for a key; they are given tickets in the order in which they come -/
  tickets : Nat := 0
  /-- those who go to the line, since they have just come, or were called -/
  coming : List Ticket := []
  /-- those who have been to the line and are about to look whether a key waits -/
  looking : List Ticket := []
  /-- those who have got what they came for, and are about to give back what they have of a place in
  the line -/
  leaving : List Ticket := []
  /-- how many rings are owed for keys that were put in -/
  rings : Nat := 0
  /-- is everybody still to be called since the queue was shut? -/
  alarm : Bool := false
  /-- who has got a key, the first one first -/
  served : List Ticket := []

/-- A step of an operation. -/
inductive Move (σ : Type) where
  /-- the keys of the queue are changed -/
  | change (a : Action σ)
  /-- somebody comes for a key -/
  | come
  /-- one who waits gives up; quietly if it was called with everybody -/
  | giveUp (ticket : Ticket) (quietly : Bool)
  /-- a ring that is owed -/
  | ring
  /-- everybody is called -/
  | callAll
  /-- a called one goes back to the line -/
  | rise (ticket : Ticket)
  /-- somebody takes a place in the line; quietly if everybody was called on the way there -/
  | enter (ticket : Ticket) (quietly : Bool)
  /-- somebody looks whether a key waits, takes it if one does, and something changes with it -/
  | look (ticket : Ticket) (take : Key → σ → σ)
  /-- somebody leaves the line; quietly if it was called with everybody -/
  | leave (ticket : Ticket) (quietly : Bool)

/-- Is the move the beginning of an operation? All others go on by themselves. -/
def Move.isIssued {σ : Type} : Move σ → Bool
  | .change _ | .come | .giveUp .. => true
  | .ring | .callAll | .rise _ | .enter .. | .look .. | .leave .. => false

namespace Hall

variable {σ : Type} {h : Hall σ} {m : Move σ} {t : Ticket} {key : Key}

/-- A hall with an empty queue. -/
def opened (beside : σ) : Hall σ := { beside }

/-- Has everybody been called? -/
def Warned (h : Hall σ) : Prop := h.queue.closed = true ∧ h.alarm = false

instance (h : Hall σ) : Decidable h.Warned := inferInstanceAs (Decidable (h.queue.closed = true ∧ h.alarm = false))

/-- Which moves are possible. -/
def Allows (h : Hall σ) : Move σ → Prop
  | .change a => a.isChange = true
  | .come => True
  | .giveUp t quietly =>
    (t ∈ h.queue.bell.waiting ∨ t ∈ h.queue.bell.called) ∧ t ∉ h.looking ∧ t ∉ h.leaving ∧
      (quietly = true → h.Warned)
  | .ring => 0 < h.rings
  | .callAll => h.alarm = true
  | .rise t => t ∈ h.queue.bell.called ∧ t ∉ h.looking ∧ t ∉ h.leaving
  | .enter t quietly => t ∈ h.coming ∧ (quietly = true → h.Warned)
  | .look t _ => t ∈ h.looking
  | .leave t quietly => t ∈ h.leaving ∧ (quietly = true → h.Warned)

instance (h : Hall σ) : (m : Move σ) → Decidable (h.Allows m)
  | .change a => inferInstanceAs (Decidable (a.isChange = true))
  | .come => inferInstanceAs (Decidable True)
  | .giveUp t quietly => inferInstanceAs (Decidable
      ((t ∈ h.queue.bell.waiting ∨ t ∈ h.queue.bell.called) ∧ t ∉ h.looking ∧ t ∉ h.leaving ∧
        (quietly = true → h.Warned)))
  | .ring => inferInstanceAs (Decidable (0 < h.rings))
  | .callAll => inferInstanceAs (Decidable (h.alarm = true))
  | .rise t => inferInstanceAs (Decidable (t ∈ h.queue.bell.called ∧ t ∉ h.looking ∧ t ∉ h.leaving))
  | .enter t quietly => inferInstanceAs (Decidable (t ∈ h.coming ∧ (quietly = true → h.Warned)))
  | .look t _ => inferInstanceAs (Decidable (t ∈ h.looking))
  | .leave t quietly => inferInstanceAs (Decidable (t ∈ h.leaving ∧ (quietly = true → h.Warned)))

/-- What a change makes of a hall: the keys are those that the queue would have, and the rings are
owed. -/
def change (h : Hall σ) (a : Action σ) : Hall σ :=
  let s := act (h.beside, h.queue) a
  { h with
    beside := s.1
    queue := { s.2 with bell := h.queue.bell }
    rings := h.rings + (s.2.pending.length - h.queue.pending.length)
    alarm := h.alarm || s.2.closed && !h.queue.closed }

/-- What it makes of a hall that somebody looks whether a key waits. -/
def look (h : Hall σ) (t : Ticket) (take : Key → σ → σ) : Hall σ :=
  match h.queue.getWith t (fun key beside => ((), take key beside)) h.beside with
  | (.taken _ _, beside, queue) =>
    { h with
      beside, queue := { queue with bell := h.queue.bell }
      looking := h.looking.erase t, leaving := h.leaving ++ [t], served := h.served ++ [t] }
  | (.closed, _, _) => { h with looking := h.looking.erase t, leaving := h.leaving ++ [t] }
  | (.waiting, _, _) =>
    if t ∈ h.queue.bell.waiting ∨ t ∈ h.queue.bell.called then { h with looking := h.looking.erase t }
    -- whoever used up a remembered ring has no place in the line, and goes there once more
    else { h with looking := h.looking.erase t, coming := h.coming ++ [t] }

/-- What a move makes of a hall. -/
def after (h : Hall σ) : Move σ → Hall σ
  | .change a => h.change a
  | .come => { h with tickets := h.tickets + 1, coming := h.coming ++ [h.tickets] }
  | .giveUp t quietly => { h with queue.bell := h.queue.bell.drop t quietly }
  | .ring => { h with queue.bell := h.queue.bell.ring, rings := h.rings - 1 }
  | .callAll => { h with queue.bell := h.queue.bell.ringAll, alarm := false }
  | .rise t =>
    { h with
      queue.bell := { h.queue.bell with called := h.queue.bell.called.erase t }, coming := h.coming ++ [t] }
  | .enter t quietly =>
    { h with
      queue.bell := if quietly then h.queue.bell else h.queue.bell.enter t
      coming := h.coming.erase t, looking := h.looking ++ [t] }
  | .look t take => h.look t take
  | .leave t quietly => { h with queue.bell := h.queue.bell.drop t quietly, leaving := h.leaving.erase t }

/-- What moves make of a hall, one after the other. -/
def afterAll (h : Hall σ) (moves : List (Move σ)) : Hall σ := moves.foldl after h

/-- Each move is possible when it is made. -/
def Possible : Hall σ → List (Move σ) → Prop
  | _, [] => True
  | h, m :: moves => h.Allows m ∧ Possible (h.after m) moves

/-- Nobody is in the middle of anything: no move goes on by itself. -/
def Settled (h : Hall σ) : Prop := ∀ m, m.isIssued = false → ¬h.Allows m

/-- Operations are begun only when nobody is in the middle of anything. -/
def Peaceful : Hall σ → List (Move σ) → Prop
  | _, [] => True
  | h, m :: moves => (m.isIssued = true → h.Settled) ∧ Peaceful (h.after m) moves

/-- Nobody is in the middle of anything exactly if no ring is owed, nobody has been called, and
nobody is on the way to the line, about to look or about to leave it. This makes `Settled`
decidable. -/
theorem settled_iff : h.Settled ↔
    h.rings = 0 ∧ h.alarm = false ∧ h.queue.bell.called = [] ∧ h.coming = [] ∧ h.looking = [] ∧ h.leaving = [] := by
  constructor
  · intro hs
    have hlooking : h.looking = [] :=
      List.eq_nil_iff_forall_not_mem.mpr fun t ht => hs (.look t fun _ s => s) rfl ht
    have hleaving : h.leaving = [] :=
      List.eq_nil_iff_forall_not_mem.mpr fun t ht => hs (.leave t false) rfl ⟨ht, nofun⟩
    refine ⟨?_, ?_, ?_, ?_, hlooking, hleaving⟩
    · exact Nat.eq_zero_of_not_pos (hs .ring rfl)
    · exact Bool.eq_false_iff.mpr (hs .callAll rfl)
    · -- a called one may go back, since it is neither about to look nor about to leave
      exact List.eq_nil_iff_forall_not_mem.mpr fun t ht => hs (.rise t) rfl ⟨ht, by simp [hlooking, hleaving]⟩
    · exact List.eq_nil_iff_forall_not_mem.mpr fun t ht => hs (.enter t false) rfl ⟨ht, nofun⟩
  · rintro ⟨hrings, halarm, hcalled, hcoming, hlooking, hleaving⟩ m hm ha
    cases m with
    | ring => simp [Allows, hrings] at ha
    | callAll => simp [Allows, halarm] at ha
    | rise t => simp [Allows, hcalled] at ha
    | enter t => simp [Allows, hcoming] at ha
    | look t => simp [Allows, hlooking] at ha
    | leave t => simp [Allows, hleaving] at ha
    | change | come | giveUp => cases hm

instance (h : Hall σ) : Decidable h.Settled := decidable_of_iff _ settled_iff.symm

instance Possible.decide : (h : Hall σ) → (moves : List (Move σ)) → Decidable (Possible h moves)
  | _, [] => inferInstanceAs (Decidable True)
  | h, m :: moves =>
    have := Possible.decide (h.after m) moves
    inferInstanceAs (Decidable (h.Allows m ∧ Possible (h.after m) moves))

instance Peaceful.decide : (h : Hall σ) → (moves : List (Move σ)) → Decidable (Peaceful h moves)
  | _, [] => inferInstanceAs (Decidable True)
  | h, m :: moves =>
    have := Peaceful.decide (h.after m) moves
    inferInstanceAs (Decidable ((m.isIssued = true → h.Settled) ∧ Peaceful (h.after m) moves))

/-! ## What the moves make of a hall

To look is the only move with several outcomes. They are told apart by the queue, and at an open
queue without keys by whether the one that looks still has a place in the line. -/

section look

variable {take : Key → σ → σ}

/-- Whoever looks while a key waits takes the first one and is about to leave, whatever it has of a
place in the line. -/
theorem look_of_cons {rest : List Key} (hp : h.queue.pending = key :: rest) :
    h.look t take =
      { h with
        beside := take key h.beside, queue := { h.queue.handOut t key rest with bell := h.queue.bell }
        looking := h.looking.erase t, leaving := h.leaving ++ [t], served := h.served ++ [t] } := by
  simp only [look, getWith_of_cons hp]

/-- Whoever finds no key at a queue that is shut is about to leave without one. -/
theorem look_of_closed (hp : h.queue.pending = []) (hc : h.queue.closed = true) :
    h.look t take = { h with looking := h.looking.erase t, leaving := h.leaving ++ [t] } := by
  simp only [look, getWith_of_closed hp hc]

/-- Whoever finds no key at an open queue waits if it has a place in the line, or has been called
meanwhile. Otherwise it goes there once more. -/
theorem look_of_open (hp : h.queue.pending = []) (ho : h.queue.closed = false) :
    h.look t take =
      if t ∈ h.queue.bell.waiting ∨ t ∈ h.queue.bell.called then { h with looking := h.looking.erase t }
      else { h with looking := h.looking.erase t, coming := h.coming ++ [t] } := by
  simp only [look, getWith_of_open hp ho]

end look

/-! ## The steps of one operation without a break

An operation of a queue is one action in `Queue.act` and several moves here. If nobody comes in
between, the moves that it begins and those that go on from them lead to the hall with the queue
that the action makes. So what is shown of moves in any order holds of the queue as well, and not of
another one. -/

/-- What is done to a queue is nothing to those who wait, or puts a key at the end and rings, or
shuts it and calls everybody. -/
inductive Rings (q : Queue) : Queue → Prop where
  /-- nothing rings -/
  | silent {r : Queue} (hp : r.pending = q.pending) (hc : r.closed = q.closed) (hb : r.bell = q.bell) : Rings q r
  /-- a key is put at the end -/
  | appended {r : Queue} (key : Key) (hp : r.pending = q.pending ++ [key]) (hc : r.closed = q.closed)
    (hb : r.bell = q.bell.ring) : Rings q r
  /-- the queue is shut -/
  | shut {r : Queue} (ho : q.closed = false) (hp : r.pending = q.pending) (hc : r.closed = true)
    (hb : r.bell = q.bell.ringAll) : Rings q r

/-- Putting a key in rings only if the key waits from now on. -/
theorem rings_insert (q : Queue) (key : Key) : Rings q (q.insert key) := by
  by_cases hout : key ∈ q.processing
  · rw [insert_of_mem_processing hout]
    exact .silent rfl rfl rfl
  · by_cases hw : key ∈ q.queued
    · rw [insert_of_mem_queued hout hw]
      exact .silent rfl rfl rfl
    · rw [insert_of_not_mem hout hw]
      exact .appended key rfl rfl rfl

theorem rings_done (q : Queue) (key : Key) : Rings q (q.done key) := by
  by_cases hd : key ∈ q.dirty
  · rw [done_of_mem_dirty hd]
    exact .appended key rfl rfl rfl
  · rw [done_of_not_mem_dirty hd]
    exact .silent rfl rfl rfl

/-- A change rings once for a key that it puts at the end, and calls everybody when it shuts the
queue. Nothing else that is done to a queue is heard by those who wait. -/
theorem rings_act {s : σ × Queue} (hq : s.2.Sound) {a : Action σ} (ha : a.isChange = true) :
    Rings s.2 (act s a).2 := by
  have hs := step_of_act hq a
  generalize (act s a).2 = r, eventsOf s a = events at hs
  cases hs with
  | added key | addedWith key | addedAtOnce _ key => exact rings_insert s.2 key
  | released key d =>
    cases rings_insert { s.2 with timers := s.2.timers.erase (key, d), delayed := s.2.delayed.erase key } key with
    | silent hp hc hb => exact .silent hp hc hb
    | appended key hp hc hb => exact .appended key hp hc hb
    | shut ho hp hc hb => exact .shut ho hp hc hb
  | givenBack key => exact rings_done s.2 key
  | shut ho => exact .shut ho rfl rfl rfl
  | refused | outrun | timed | lapsed | shutAgain => exact .silent rfl rfl rfl
  | handedOut | toldClosed | toldToWait | left => cases ha

/-- Moves that go on by themselves lead from one hall to another. -/
def GoesOn (h h' : Hall σ) : Prop :=
  ∃ moves : List (Move σ), (∀ m ∈ moves, m.isIssued = false) ∧ Possible h moves ∧ h.afterAll moves = h'

/-- A change of the keys and then the rings that it owes are what the queue makes of the change: at
a hall where no ring is owed, a client that does both without a break does what `act` does in one
step. -/
theorem change_in_one_go (hq : h.queue.Sound) (hrings : h.rings = 0) (halarm : h.alarm = false) {a : Action σ}
    (ha : a.isChange = true) :
    GoesOn (h.change a) { h with
      beside := (act (h.beside, h.queue) a).1
      queue := (act (h.beside, h.queue) a).2 } := by
  have hact : Rings h.queue (act (h.beside, h.queue) a).2 := rings_act (s := (h.beside, h.queue)) hq ha
  unfold change
  generalize act (h.beside, h.queue) a = s at hact
  obtain ⟨beside, pending, queued, processing, dirty, delayed, timers, closed, bell⟩ := s
  -- one move for each call that is owed: none, one ring, or the call of everybody
  cases hact with
  | silent hp hc hb =>
    subst hp hc hb
    exact ⟨[], by simp, trivial, by simp [afterAll, hrings, halarm]⟩
  | appended key hp hc hb =>
    subst hp hc hb
    exact ⟨[.ring], by simp [Move.isIssued], by simp [Possible, Allows], by simp [afterAll, after, hrings, halarm]⟩
  | shut ho hp hc hb =>
    subst hp hc hb
    refine ⟨[.callAll], by simp [Move.isIssued], by simp [Possible, Allows, ho], ?_⟩
    simp [afterAll, after, hrings, halarm]

/-- Moves are possible one after the other if the later ones are possible where the earlier ones
lead. -/
theorem possible_append {moves later : List (Move σ)} :
    Possible h (moves ++ later) ↔ Possible h moves ∧ Possible (h.afterAll moves) later := by
  induction moves generalizing h with
  | nil => exact (iff_of_eq (true_and _)).symm
  | cons m moves ih => rw [List.cons_append, Possible, ih, ← and_assoc, Possible, afterAll, afterAll, List.foldl_cons]

theorem GoesOn.trans {h₁ h₂ h₃ : Hall σ} (h₁₂ : GoesOn h₁ h₂) (h₂₃ : GoesOn h₂ h₃) : GoesOn h₁ h₃ := by
  obtain ⟨moves, hm, hp, rfl⟩ := h₁₂
  obtain ⟨later, hl, hp', rfl⟩ := h₂₃
  refine ⟨moves ++ later, fun m hmem => ?_, possible_append.mpr ⟨hp, hp'⟩, List.foldl_append⟩
  exact (List.mem_append.mp hmem).elim (hm m) (hl m)

/-- To take a place in the line and to look is one move after the other. -/
theorem enter_and_look (ht : t ∈ h.coming) (take : Key → σ → σ) :
    GoesOn h ((h.after (.enter t false)).look t take) :=
  ⟨[.enter t false, .look t take], by simp [Move.isIssued], by simp [Possible, Allows, after, ht], rfl⟩

theorem then_leave (ht : t ∈ h.leaving) : GoesOn h (h.after (.leave t false)) :=
  ⟨[.leave t false], by simp [Move.isIssued], by simp [Possible, Allows, ht], rfl⟩

section ask

variable (ht : t ∈ h.coming) (hcalled : t ∉ h.queue.bell.called) (hlooking : t ∉ h.looking)
include ht hcalled hlooking

/-- Where no ring is remembered, somebody who finds no key has a place in the line, and waits there
until it is called. -/
theorem wait_in_one_go (hp : h.queue.pending = []) (ho : h.queue.closed = false) (hperm : h.queue.bell.permit = false) :
    GoesOn h { h with queue.bell := (h.queue.bell.arrive t).wait t, coming := h.coming.erase t } := by
  have henter : h.queue.bell.enter t = (h.queue.bell.arrive t).wait t := by
    simp [Bell.enter, Bell.arrive, Bell.wait, hperm, List.erase_of_not_mem hcalled]
  have hlook := enter_and_look ht (fun _ s => s)
  rw [look_of_open (h := h.after (.enter t false)) hp ho, if_pos (.inl (by simp [after, henter, Bell.wait]))] at hlook
  simpa [after, Bell.erase_append_singleton hlooking, henter] using hlook

/-- To take a place in the line, to look then, and to leave the line with a key are what the queue
makes of asking. What `getWith` does in one step is thus one way for the moves to come one after the
other. -/
theorem ask_in_one_go (hw : t ∉ h.queue.bell.waiting) (hnodup : h.coming.Nodup) (hleaving : t ∉ h.leaving)
    (take : Key → σ → σ) :
    GoesOn h { h with
      beside := (act (h.beside, h.queue) (.getWith t take)).1
      queue := (act (h.beside, h.queue) (.getWith t take)).2
      coming := h.coming.erase t
      served := h.served ++ if h.queue.pending = [] then [] else [t] } := by
  have hlooked := Bell.erase_append_singleton hlooking
  have hleft := Bell.erase_append_singleton hleaving
  have hbell := Bell.drop_enter hw hcalled
  have hlook := enter_and_look ht take
  cases hp : h.queue.pending with
  | cons key rest =>
    rw [look_of_cons (h := h.after (.enter t false)) hp] at hlook
    rw [act, getWith_of_cons hp]
    simpa [after, hlooked, hleft, hbell, handOut] using hlook.trans (then_leave (t := t) (by simp))
  | nil =>
    cases hc : h.queue.closed with
    | true =>
      rw [look_of_closed (h := h.after (.enter t false)) hp hc] at hlook
      rw [act, getWith_of_closed hp hc]
      simpa [after, hlooked, hleft, hbell] using hlook.trans (then_leave (t := t) (by simp))
    | false =>
      rw [act, getWith_of_open hp hc]
      cases hperm : h.queue.bell.permit with
      | false => simpa using wait_in_one_go ht hcalled hlooking hp hc hperm
      | true =>
        -- the remembered ring is used up, so it takes a second time to get a place in the line
        have henter : h.queue.bell.enter t = { h.queue.bell with permit := false } := if_pos hperm
        rw [look_of_open (h := h.after (.enter t false)) hp hc, if_neg (by simp [after, henter, hw, hcalled])] at hlook
        refine hlook.trans ?_
        have hwait := wait_in_one_go (h := { h with
          queue.bell := { h.queue.bell with permit := false }, coming := h.coming.erase t ++ [t] })
          (by simp) hcalled hlooking hp hc rfl
        simpa [after, hlooked, henter, Bell.arrive,
          Bell.erase_append_singleton hnodup.not_mem_erase] using hwait

end ask

end Hall

end Queue

end ControlLoop
