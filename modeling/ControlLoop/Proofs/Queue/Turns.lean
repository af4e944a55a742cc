import ControlLoop.Proofs.Queue.Wakeups

/-!
# Each in turn

When operations are begun only while nobody is in the middle of anything, at most one of those who
want a key moves at a time, until the queue is shut (`InTurn`). If a key waits it is the one who was
first in the line; otherwise it is the one who came last. So keys are handed out in the order in
which those who wait have come.

Shutting the queue ends this: it calls everybody who waits at once, so they may come back in any
order. But there is no key left for them then, and nobody gets ahead of others by going home first
(`InTurn.runDry`).
-/

namespace ControlLoop

theorem Bell.drop_of_called_nil {b : Bell} {t : Ticket} {quietly : Bool} (h : b.called = []) :
    b.drop t quietly = { b with waiting := b.waiting.erase t } := by
  cases quietly with
  | true => simp only [drop, slip, h, List.erase_nil, if_true]
  | false => exact leave_of_not_called (by simp [h])

namespace Queue.Hall

variable {σ : Type} {h : Hall σ} {m : Move σ} {t u : Ticket} {others : List Ticket}

/-- Tickets in the order in which they were given out. -/
abbrev InOrder (tickets : List Ticket) : Prop := tickets.Pairwise (· < ·)

/-! ## Where somebody may be

In a peaceful run there is one at most who moves, and the invariant `InTurn` says who it may be and
where. Where it is going to look, it has to be the next one to be served, if a key waits (`IsNext`):
this is what makes the order of the keys the order of those who came. -/

/-- Nobody is called, on the way, about to look or about to leave. -/
structure Still (h : Hall σ) : Prop where
  called : h.queue.bell.called = []
  coming : h.coming = []
  looking : h.looking = []
  leaving : h.leaving = []

/-- Only one moves; the others wait. -/
inductive Alone (h : Hall σ) (t : Ticket) (others : List Ticket) : Prop where
  /-- it has been called -/
  | called (hw : h.queue.bell.waiting = others) (hc : h.queue.bell.called = [t]) (hcoming : h.coming = [])
    (hlooking : h.looking = [])
  /-- it is on the way -/
  | coming (hw : h.queue.bell.waiting = others) (hc : h.queue.bell.called = []) (hcoming : h.coming = [t])
    (hlooking : h.looking = [])
  /-- it is about to look; it may have the last place in the line -/
  | looking (hw : h.queue.bell.waiting = others ∨ h.queue.bell.waiting = others ++ [t]) (hc : h.queue.bell.called = [])
    (hcoming : h.coming = []) (hlooking : h.looking = [t])

/-- The one who moves is next, if a key waits; otherwise it is the last one, and will take its place
behind the others. -/
structure IsNext (h : Hall σ) (t : Ticket) (others : List Ticket) : Prop where
  rings : h.rings = 0
  alarm : h.alarm = false
  leaving : h.leaving = []
  inOrder_of_key : h.queue.pending ≠ [] → InOrder (h.served ++ t :: others)
  inOrder_of_none : h.queue.pending = [] → InOrder (h.served ++ (others ++ [t]))

/-- The one who moves is not among those who wait. -/
theorem IsNext.not_mem (hn : h.IsNext t others) : t ∉ others := by
  intro ht
  by_cases hp : h.queue.pending = []
  · have horder := (List.pairwise_append.mp (hn.inOrder_of_none hp)).2.1
    exact Nat.lt_irrefl t ((List.pairwise_append.mp horder).2.2 t ht t (List.mem_singleton_self t))
  · have horder := (List.pairwise_append.mp (hn.inOrder_of_key hp)).2.1
    exact Nat.lt_irrefl t ((List.pairwise_cons.mp horder).1 t ht)

theorem IsNext.inOrder_served (hn : h.IsNext t others) : InOrder h.served := by
  by_cases hp : h.queue.pending = []
  · exact (List.pairwise_append.mp (hn.inOrder_of_none hp)).1
  · exact (List.pairwise_append.mp (hn.inOrder_of_key hp)).1

/-- Nobody gets ahead of others. The cases say who moves: nobody, one that is going to look, one
that is about to leave, or, when there will be no more keys, all at once. -/
inductive InTurn (h : Hall σ) : Prop where
  /-- nobody moves; a ring may be owed, or everybody is to be called but nobody waits -/
  | still (still : h.Still) (hrings : h.rings = 0 ∨ h.rings = 1 ∧ h.queue.pending ≠ [])
    (halarm : h.alarm = true → h.queue.bell.waiting = []) (horder : InOrder (h.served ++ h.queue.bell.waiting))
  /-- one is going to look -/
  | looks (t : Ticket) (others : List Ticket) (alone : h.Alone t others) (next : h.IsNext t others)
  /-- one is about to leave -/
  | leaves (t : Ticket) (hc : h.queue.bell.called = []) (hcoming : h.coming = []) (hlooking : h.looking = [])
    (hleaving : h.leaving = [t]) (hrings : h.rings = 0) (halarm : h.alarm = false)
    (horder : InOrder (h.served ++ h.queue.bell.waiting.erase t))
  /-- there will be no more keys, and all go home -/
  | runDry (hclosed : h.queue.closed = true) (hp : h.queue.pending = []) (hrings : h.rings = 0)
    (horder : InOrder h.served)

theorem inTurn_opened (beside : σ) : (opened beside).InTurn :=
  .still ⟨rfl, rfl, rfl, rfl⟩ (.inl rfl) nofun List.Pairwise.nil

/-- Those who have got a key got it in the order in which they came. -/
theorem InTurn.inOrder_served (hi : h.InTurn) : InOrder h.served := by
  cases hi with
  | still _ _ _ horder => exact (List.pairwise_append.mp horder).1
  | looks t others _ next => exact next.inOrder_served
  | leaves t _ _ _ _ _ _ horder => exact (List.pairwise_append.mp horder).1
  | runDry _ _ _ horder => exact horder

/-- Where nobody is in the middle of anything, nobody who waits came before one who has got a
key. -/
theorem InTurn.inOrder_of_settled (hi : h.InTurn) (hk : h.Kept) (hs : h.Settled) :
    InOrder (h.served ++ h.queue.bell.waiting) := by
  obtain ⟨-, -, hcalled, hcoming, hlooking, hleaving⟩ := settled_iff.mp hs
  cases hi with
  | still _ _ _ horder => exact horder
  | looks t others alone =>
    cases alone with
    | called hw hc => simp [hc] at hcalled
    | coming hw hc hcoming' => simp [hcoming'] at hcoming
    | looking hw hc hcoming' hlooking' => simp [hlooking'] at hlooking
  | leaves t _ _ _ hleaving' => simp [hleaving'] at hleaving
  -- at a queue that is shut nobody waits once everybody has been called
  | runDry hclosed _ _ horder =>
    by_cases hw : h.queue.bell.waiting = []
    · rw [hw, List.append_nil]
      exact horder
    · rw [(hk.nothing_missed hs hw).2] at hclosed
      cases hclosed

/-! ## Operations that begin

An operation begins while nobody moves, so everybody who is there waits in the line, in order. A
change may then owe a ring; somebody new comes behind all others; and one who gives up leaves the
others in order. -/

section issued

variable (hk : h.Kept) (hs : h.Settled) (horder : InOrder (h.served ++ h.queue.bell.waiting))
include hk hs horder

/-- A change that begins while nobody is in the middle of anything owes one ring at most; if it
shuts the queue while somebody waits, then no key waits, and there will be none. -/
theorem inTurn_change {a : Action σ} (ha : a.isChange = true) : (h.change a).InTurn := by
  obtain ⟨hrings, halarm, hcalled, hcoming, hlooking, hleaving⟩ := settled_iff.mp hs
  have hact : Rings h.queue (act (h.beside, h.queue) a).2 := rings_act (s := (h.beside, h.queue)) hk.sound ha
  have hstill : (h.change a).Still := ⟨hcalled, hcoming, hlooking, hleaving⟩
  cases hact with
  | silent hp hc hb => exact .still hstill (.inl (by simp [change, hp, hrings])) (by simp [change, hc, halarm]) horder
  | appended key hp hc hb =>
    exact .still hstill (.inr (by simp [change, hp, hrings])) (by simp [change, hc, halarm]) horder
  | shut ho hp hc hb =>
    by_cases hw : h.queue.bell.waiting = []
    · exact .still hstill (.inl (by simp [change, hp, hrings])) (fun _ => hw) horder
    · have hnone := (hk.nothing_missed hs hw).1
      exact .runDry hc (hp.trans hnone) (by simp [change, hp, hrings]) (List.pairwise_append.mp horder).1

/-- Somebody new has the highest ticket, and moves alone. It is next if a key waits, since nobody
waits then. -/
theorem inTurn_come : (h.after .come).InTurn := by
  obtain ⟨hrings, halarm, hcalled, hcoming, hlooking, hleaving⟩ := settled_iff.mp hs
  have hnew : InOrder (h.served ++ (h.queue.bell.waiting ++ [h.tickets])) := by
    rw [← List.append_assoc]
    refine List.pairwise_append.mpr ⟨horder, by simp, fun u hu v hv => ?_⟩
    rw [List.mem_singleton.mp hv]
    refine hk.seated.lt_tickets u ?_
    exact (List.mem_append.mp hu).elim (fun hu => .inr (.inr (.inr hu))) fun hu => .inl (List.mem_append_left _ hu)
  refine .looks h.tickets h.queue.bell.waiting (.coming rfl hcalled (by simp [after, hcoming]) hlooking)
    ⟨hrings, halarm, hleaving, fun hp => ?_, fun _ => hnew⟩
  -- a key waits, so nobody else does
  have hw : h.queue.bell.waiting = [] := Decidable.byContradiction fun hw => hp (hk.nothing_missed hs hw).1
  rwa [hw] at hnew ⊢

omit hk in
/-- One who gives up leaves the line in order; nobody is called in its place, since it was not
called itself. -/
theorem inTurn_giveUp (t : Ticket) (quietly : Bool) : (h.after (.giveUp t quietly)).InTurn := by
  obtain ⟨hrings, halarm, hcalled, hcoming, hlooking, hleaving⟩ := settled_iff.mp hs
  simp only [after, Bell.drop_of_called_nil hcalled]
  refine .still ⟨hcalled, hcoming, hlooking, hleaving⟩ (.inl hrings) (by simp [halarm]) ?_
  exact horder.sublist (List.erase_sublist.append_left _)

end issued

/-! ## Steps that go on

The cases are those of `InTurn`. In each of them one move at most is possible for those who want a
key, beside rings that are still owed, so a move is first found to be the one of the case. -/

/-- The ring that is owed calls the first one, if somebody waits. The first one came before the
others, so it is next. -/
theorem inTurn_ring (still : h.Still) (hrings : h.rings = 1) (hp : h.queue.pending ≠ [])
    (halarm : h.alarm = true → h.queue.bell.waiting = []) (horder : InOrder (h.served ++ h.queue.bell.waiting)) :
    (h.after .ring).InTurn := by
  simp only [after, hrings, Nat.sub_self]
  cases hw : h.queue.bell.waiting with
  -- nobody hears the ring, and the bell remembers it
  | nil =>
    rw [Bell.ring_of_nil hw]
    exact .still ⟨still.called, still.coming, still.looking, still.leaving⟩ (.inl rfl) (fun _ => hw) horder
  | cons t others =>
    rw [Bell.ring_of_cons hw]
    have halarm' : h.alarm = false := by
      refine Bool.eq_false_iff.mpr fun hal => ?_
      rw [halarm hal] at hw
      cases hw
    rw [hw] at horder
    exact .looks t others (.called rfl (by simp [still.called]) still.coming still.looking)
      ⟨rfl, halarm', still.leaving, fun _ => horder, fun hnone => absurd hnone hp⟩

/-- The one on the way goes on. It takes the last place in the line, unless a ring is remembered,
which it uses up instead. -/
theorem inTurn_enter (next : h.IsNext t others) (hw : h.queue.bell.waiting = others) (hc : h.queue.bell.called = [])
    (hcoming : h.coming = [t]) (hlooking : h.looking = []) (quietly : Bool) :
    (h.after (.enter t quietly)).InTurn := by
  refine .looks t others ?_ { next with }
  have hbell : ∃ b, (h.after (.enter t quietly)).queue.bell = b ∧ b.called = [] ∧
      (b.waiting = others ∨ b.waiting = others ++ [t]) := by
    simp only [after, Bell.enter]
    refine ⟨_, rfl, ?_⟩
    split
    · exact ⟨hc, .inl hw⟩
    · split
      · exact ⟨hc, .inl hw⟩
      · exact ⟨hc, .inr (by simp [Bell.wait, hw])⟩
  obtain ⟨b, rfl, hc', hw'⟩ := hbell
  exact .looking hw' hc' (by simp [after, hcoming]) (by simp [after, hlooking])

/-- The one that looks takes the key that waits, or is the last one in the line. -/
theorem inTurn_look (next : h.IsNext t others)
    (hw : h.queue.bell.waiting = others ∨ h.queue.bell.waiting = others ++ [t]) (hc : h.queue.bell.called = [])
    (hcoming : h.coming = []) (hlooking : h.looking = [t]) (take : Key → σ → σ) : (h.look t take).InTurn := by
  have hlooked : h.looking.erase t = [] := by simp [hlooking]
  have hleft : h.leaving ++ [t] = [t] := by simp [next.leaving]
  -- once it has left, those who remain are the others, whether it had a place or not
  have herase : h.queue.bell.waiting.erase t = others := by
    rcases hw with hw | hw
    · rw [hw, List.erase_of_not_mem next.not_mem]
    · rw [hw, Bell.erase_append_singleton next.not_mem]
  cases hp : h.queue.pending with
  | cons key rest =>
    have horder := next.inOrder_of_key (by simp [hp])
    rw [look_of_cons hp]
    refine .leaves t hc hcoming hlooked hleft next.rings next.alarm ?_
    simpa [handOut, herase] using horder
  | nil =>
    have horder := next.inOrder_of_none hp
    cases hclosed : h.queue.closed with
    | true =>
      rw [look_of_closed hp hclosed]
      refine .leaves t hc hcoming hlooked hleft next.rings next.alarm ?_
      rw [herase]
      exact horder.sublist ((List.sublist_append_left others [t]).append_left _)
    | false =>
      rw [look_of_open hp hclosed]
      rcases hw with hw | hw
      · -- it used up a remembered ring, has no place in the line, and goes there again
        rw [if_neg (by simp [hw, hc, next.not_mem])]
        exact .looks t others (.coming hw hc (by simp [hcoming]) hlooked) { next with }
      · -- it has the last place, and waits
        rw [if_pos (by simp [hw])]
        refine .still ⟨hc, hcoming, hlooked, next.leaving⟩ (.inl next.rings) (by simp [next.alarm]) ?_
        rwa [hw]

/-- While nobody moves there is nothing to go on with but rings: the one that is owed, or the call
of everybody, which nobody hears. -/
theorem inTurn_of_still (still : h.Still) (hrings : h.rings = 0 ∨ h.rings = 1 ∧ h.queue.pending ≠ [])
    (halarm : h.alarm = true → h.queue.bell.waiting = []) (horder : InOrder (h.served ++ h.queue.bell.waiting))
    (hm : m.isIssued = false) (ha : h.Allows m) : (h.after m).InTurn := by
  cases m with
  | ring =>
    obtain ⟨hone, hp⟩ := hrings.resolve_left (Nat.ne_of_gt ha)
    exact inTurn_ring still hone hp halarm horder
  | callAll =>
    have hw := halarm ha
    refine .still ⟨?_, still.coming, still.looking, still.leaving⟩ hrings nofun ?_
    · simp [after, Bell.ringAll, hw, still.called]
    · simpa [after, Bell.ringAll, hw] using horder
  | rise t => simp [Allows, still.called] at ha
  | enter t => simp [Allows, still.coming] at ha
  | look t => simp [Allows, still.looking] at ha
  | leave t => simp [Allows, still.leaving] at ha
  | change | come | giveUp => cases hm

/-- One who moves alone goes on: one who was called rises, one on the way takes its place, and one
in its place looks. -/
theorem inTurn_of_looks (alone : h.Alone t others) (next : h.IsNext t others) (hm : m.isIssued = false)
    (ha : h.Allows m) : (h.after m).InTurn := by
  cases m with
  | ring => simp [Allows, next.rings] at ha
  | callAll => simp [Allows, next.alarm] at ha
  | rise u =>
    cases alone with
    | called hw hc hcoming hlooking =>
      obtain rfl : u = t := List.mem_singleton.mp (hc ▸ ha.1)
      exact .looks u others (.coming hw (by simp [after, hc]) (by simp [after, hcoming]) hlooking) { next with }
    | coming _ hc | looking _ hc => simp [Allows, hc] at ha
  | enter u quietly =>
    cases alone with
    | coming hw hc hcoming hlooking =>
      obtain rfl : u = t := List.mem_singleton.mp (hcoming ▸ ha.1)
      exact inTurn_enter next hw hc hcoming hlooking quietly
    | called _ _ hcoming | looking _ _ hcoming => simp [Allows, hcoming] at ha
  | look u take =>
    cases alone with
    | looking hw hc hcoming hlooking =>
      obtain rfl : u = t := List.mem_singleton.mp (hlooking ▸ ha)
      exact inTurn_look next hw hc hcoming hlooking take
    | called _ _ _ hlooking | coming _ _ _ hlooking => simp [Allows, hlooking] at ha
  | leave u => simp [Allows, next.leaving] at ha
  | change | come | giveUp => cases hm

/-- The one that leaves leaves the others as they are. -/
theorem inTurn_of_leaves (hc : h.queue.bell.called = []) (hcoming : h.coming = []) (hlooking : h.looking = [])
    (hleaving : h.leaving = [t]) (hrings : h.rings = 0) (halarm : h.alarm = false)
    (horder : InOrder (h.served ++ h.queue.bell.waiting.erase t)) (hm : m.isIssued = false) (ha : h.Allows m) :
    (h.after m).InTurn := by
  cases m with
  | ring => simp [Allows, hrings] at ha
  | callAll => simp [Allows, halarm] at ha
  | rise u => simp [Allows, hc] at ha
  | enter u => simp [Allows, hcoming] at ha
  | look u => simp [Allows, hlooking] at ha
  | leave u quietly =>
    obtain rfl : u = t := List.mem_singleton.mp (hleaving ▸ ha.1)
    simp only [after, Bell.drop_of_called_nil hc]
    exact .still ⟨hc, hcoming, hlooking, by simp [hleaving]⟩ (.inl hrings) (by simp [halarm]) horder
  | change | come | giveUp => cases hm

/-- When there will be no more keys nobody gets one. -/
theorem inTurn_of_runDry (hclosed : h.queue.closed = true) (hp : h.queue.pending = []) (hrings : h.rings = 0)
    (horder : InOrder h.served) (hm : m.isIssued = false) (ha : h.Allows m) : (h.after m).InTurn := by
  cases m with
  | ring => simp [Allows, hrings] at ha
  | callAll | rise | enter | leave => exact .runDry hclosed hp hrings horder
  | look t take =>
    rw [after, look_of_closed hp hclosed]
    exact .runDry hclosed hp hrings horder
  | change | come | giveUp => cases hm

/-- No move gets anybody ahead of others, if those that begin an operation wait until nobody is in
the middle of anything. -/
theorem InTurn.after (hi : h.InTurn) (hk : h.Kept) (ha : h.Allows m) (hs : m.isIssued = true → h.Settled) :
    (h.after m).InTurn := by
  cases hm : m.isIssued with
  | true =>
    have horder := hi.inOrder_of_settled hk (hs hm)
    cases m with
    | change a => exact inTurn_change hk (hs hm) horder ha
    | come => exact inTurn_come hk (hs hm) horder
    | giveUp t quietly => exact inTurn_giveUp (hs hm) horder t quietly
    | ring | callAll | rise | enter | look | leave => cases hm
  | false =>
    cases hi with
    | still still hrings halarm horder => exact inTurn_of_still still hrings halarm horder hm ha
    | looks t others alone next => exact inTurn_of_looks alone next hm ha
    | leaves t hc hcoming hlooking hleaving hrings halarm horder =>
      exact inTurn_of_leaves hc hcoming hlooking hleaving hrings halarm horder hm ha
    | runDry hclosed hp hrings horder => exact inTurn_of_runDry hclosed hp hrings horder hm ha

/-! ## Whole runs

Two results meet in `no_call_is_missed`: along every run nobody is missed (`Kept.of_possible`), and
along a peaceful run nobody gets ahead of others (`InTurn.of_peaceful`). -/

/-- Nobody gets ahead of others along a whole run in which operations are begun only when nobody is
in the middle of anything. -/
theorem InTurn.of_peaceful (hi : h.InTurn) (hk : h.Kept) {moves : List (Move σ)} (hp : Possible h moves)
    (hpeace : Peaceful h moves) : (h.afterAll moves).InTurn := by
  induction moves generalizing h with
  | nil => exact hi
  | cons m moves ih => exact ih (hi.after hk hp.1 hpeace.1) (hk.after hp.1) hp.2 hpeace.2

/-- Where nobody is in the middle of anything, nobody waits while a key does, or at a queue that is
shut. -/
def NobodyMissed (h : Hall σ) : Prop :=
  h.Settled → h.queue.bell.waiting ≠ [] → h.queue.pending = [] ∧ h.queue.closed = false

/-- Keys were handed out in the order in which those who wanted them came, and nobody who waits came
before one who has got a key. -/
def FirstComeFirstServed (h : Hall σ) : Prop :=
  InOrder h.served ∧ (h.Settled → InOrder (h.served ++ h.queue.bell.waiting))

/-- **No call is missed**: whatever the steps of the operations and however they come one after the
other, when nobody is in the middle of anything and somebody waits, then no key does, and the queue
is not shut. And if no operation is begun while somebody is in the middle of anything, those who
wait are served in the order in which they came. -/
theorem no_call_is_missed (beside : σ) (moves : List (Move σ)) (hp : Possible (opened beside) moves) :
    ((opened beside).afterAll moves).NobodyMissed ∧
      (Peaceful (opened beside) moves → ((opened beside).afterAll moves).FirstComeFirstServed) := by
  have hk := (kept_opened beside).of_possible hp
  refine ⟨hk.nothing_missed, fun hpeace => ?_⟩
  have hi := (inTurn_opened beside).of_peaceful (kept_opened beside) hp hpeace
  exact ⟨hi.inOrder_served, hi.inOrder_of_settled hk⟩

/-- Three wait. A key comes in, but somebody new takes it before the first of them is called; a
second key comes in, the first one gives up, and its call is passed on. The third one is called,
too, finds nothing, and waits again. In another run, in which nobody gets in between, the second of
three gives up, and the others get the keys that come. -/
theorem no_call_is_missed_of_taken_key :
    ∃ (hurried patient : List (Move Unit)),
      (Possible (opened ()) hurried ∧ ((opened ()).afterAll hurried).Settled ∧
        ((opened ()).afterAll hurried).queue.bell.waiting = [2] ∧ ((opened ()).afterAll hurried).served = [3, 1] ∧
        ((opened ()).afterAll hurried).queue.pending = [] ∧ ((opened ()).afterAll hurried).queue.closed = false) ∧
      (Possible (opened ()) patient ∧ Peaceful (opened ()) patient ∧
        ((opened ()).afterAll patient).served = [0, 2] ∧ ((opened ()).afterAll patient).FirstComeFirstServed) := by
  let look (t : Ticket) : Move Unit := .look t fun _ u => u
  let wait (t : Ticket) : List (Move Unit) := [.come, .enter t false, look t]
  let three := wait 0 ++ wait 1 ++ wait 2
  let take (t : Ticket) : List (Move Unit) := [.enter t false, look t, .leave t false]
  let hurried : List (Move Unit) :=
    three ++ [.change (.add "a"), .come, .ring] ++ take 3 ++
      [.change (.add "b"), .giveUp 0 false, .ring, .rise 1] ++ take 1 ++ [.rise 2, .enter 2 false, look 2]
  let patient : List (Move Unit) :=
    three ++ [.change (.add "a"), .ring, .rise 0] ++ take 0 ++
      [.giveUp 1 false, .change (.add "b"), .ring, .rise 2] ++ take 2
  have hhurried : Possible (opened ()) hurried := by decide +kernel
  have hsettled : ((opened ()).afterAll hurried).Settled := by decide +kernel
  have hwaiting : ((opened ()).afterAll hurried).queue.bell.waiting = [2] := by decide +kernel
  obtain ⟨hnone, hopen⟩ := (no_call_is_missed () hurried hhurried).1 hsettled (by simp [hwaiting])
  have hpatient : Possible (opened ()) patient := by decide +kernel
  have hpeace : Peaceful (opened ()) patient := by decide +kernel
  have hfirst := (no_call_is_missed () patient hpatient).2 hpeace
  exact ⟨hurried, patient, ⟨hhurried, hsettled, hwaiting, by decide +kernel, hnone, hopen⟩, hpatient, hpeace,
    by decide +kernel, hfirst⟩

end Queue.Hall

end ControlLoop
