import ControlLoop.Proofs.Queue.Hall

/-!
# No call is missed

A bell remembers one ring and no more, a ring may call somebody who needs no key any longer, and a
called one may come too late. Why does no key lie there all the same while somebody waits? Because
of a count: as long as somebody rests who has not been called, there are at least as many rings
owed, called ones and others on their way to look as there are keys (`Attended`). Each of them takes
a key, passes its call on, or finds that no key is left.

The count needs that nobody is counted twice: `Seats` says who may be at which place, and has one
lemma for each way to go from one place to another.
-/

namespace ControlLoop

namespace Bell

/-- The tickets in the line and the called ones. -/
def holders (b : Bell) : List Ticket := b.waiting ++ b.called

variable {b : Bell} {t u : Ticket} {quietly : Bool}

theorem ring_of_cons {rest : List Ticket} (h : b.waiting = t :: rest) :
    b.ring = { b with waiting := rest, called := b.called ++ [t] } := by
  simp only [ring, h]

theorem ring_of_nil (h : b.waiting = []) : b.ring = { b with permit := true } := by
  simp only [ring, h]

/-- A ring moves a ticket from those who wait to those who are called, and strikes none off. -/
theorem perm_holders_ring (b : Bell) : b.ring.holders.Perm b.holders := by
  cases hw : b.waiting with
  | nil =>
    rw [ring_of_nil hw]
    exact .refl _
  | cons t rest =>
    rw [ring_of_cons hw, holders, holders, hw, ← List.append_assoc]
    exact List.perm_append_singleton t _

theorem perm_holders_ringAll (b : Bell) : b.ringAll.holders.Perm b.holders := by
  simp only [holders, ringAll, List.nil_append]
  exact List.perm_append_comm

/-- A ticket that is given back is gone. -/
theorem perm_holders_drop (h : b.holders.Nodup) (t : Ticket) (quietly : Bool) :
    (b.drop t quietly).holders.Perm (b.holders.erase t) := by
  have hslip : (b.slip t).holders = b.holders.erase t := by
    simp only [slip, holders, List.erase_append]
    split
    · next hw => rw [List.erase_of_not_mem fun hc => (List.nodup_append.mp h).2.2 t hw t hc rfl]
    · next hw => rw [List.erase_of_not_mem hw]
  cases quietly with
  | true => exact .of_eq hslip
  | false =>
    change (b.leave t).holders.Perm (b.holders.erase t)
    by_cases hc : t ∈ b.called
    · have hw : t ∉ b.waiting := fun hw => (List.nodup_append.mp h).2.2 t hw t hc rfl
      rw [leave, if_pos hc]
      exact (perm_holders_ring _).trans (.of_eq (List.erase_append_right _ hw).symm)
    · rw [leave_of_not_called hc, ← hslip, slip, List.erase_of_not_mem hc]

/-- Whoever waits after somebody gave a place back has waited before; so giving back only makes the
line shorter. -/
theorem mem_waiting_of_drop (h : u ∈ (b.drop t quietly).waiting) : u ∈ b.waiting := by
  cases quietly with
  | true => exact List.mem_of_mem_erase h
  | false =>
    change u ∈ (b.leave t).waiting at h
    by_cases hc : t ∈ b.called
    · rw [leave, if_pos hc] at h
      exact mem_waiting_of_ring (b := { b with called := b.called.erase t }) h
    · rw [leave_of_not_called hc] at h
      exact List.mem_of_mem_erase h

/-- While somebody waits uncalled, a ring calls somebody. -/
theorem length_called_ring (h : u ∈ b.ring.waiting) : b.ring.called.length = b.called.length + 1 := by
  cases hw : b.waiting with
  | nil =>
    have hmem := mem_waiting_of_ring h
    rw [hw] at hmem
    cases hmem
  | cons t rest => rw [ring_of_cons hw, List.length_append, List.length_singleton]

/-- While somebody waits uncalled, a call that is given back calls somebody else: `leave` passes it
on to the first in the line. This is why one who gives up does not take a call with it. -/
theorem length_called_leave (h : u ∈ (b.leave t).waiting) : (b.leave t).called.length = b.called.length := by
  by_cases hc : t ∈ b.called
  · rw [leave, if_pos hc] at h ⊢
    rw [length_called_ring h, List.length_erase_of_mem hc]
    exact Nat.sub_add_cancel (List.length_pos_of_mem hc)
  · rw [leave_of_not_called hc]

end Bell

namespace Queue.Hall

variable {σ : Type} {h : Hall σ} {m : Move σ} {t : Ticket}

/-! ## Who is where

A ticket is in the line, on the way or about to look, and never in two of these places. `Seats` says
so of lists, without the hall, and has one lemma for each change of place; for a hall they are put
together in `Seated.after`. -/

/-- Nobody is at two places, and everybody has been given a ticket. Whoever has been served may
still be in the line, until it leaves. -/
structure Seats (line coming looking served : List Ticket) (tickets : Nat) : Prop where
  /-- nobody has two places in the line, or is on the way there with a place -/
  nodup_line : (line ++ coming).Nodup
  /-- nobody looks who is still on the way -/
  nodup_looking : (coming ++ looking).Nodup
  /-- all tickets have been given out -/
  lt_tickets : ∀ t, t ∈ line ∨ t ∈ coming ∨ t ∈ looking ∨ t ∈ served → t < tickets

namespace Seats

variable {line line' coming looking served : List Ticket} {tickets : Nat}

theorem empty : Seats [] [] [] [] 0 := ⟨List.nodup_nil, List.nodup_nil, by simp⟩

theorem perm (s : Seats line coming looking served tickets) (hp : line'.Perm line) :
    Seats line' coming looking served tickets := by
  refine ⟨(hp.append_right coming).nodup_iff.mpr s.nodup_line, s.nodup_looking, fun t ht => s.lt_tickets t ?_⟩
  rwa [hp.mem_iff] at ht

theorem giveBack (s : Seats line coming looking served tickets) (t : Ticket) :
    Seats (line.erase t) coming looking served tickets := by
  refine ⟨s.nodup_line.sublist (List.erase_sublist.append_right coming), s.nodup_looking, fun u hu => ?_⟩
  exact s.lt_tickets u (hu.imp_left List.mem_of_mem_erase)

theorem looked (s : Seats line coming looking served tickets) (t : Ticket) :
    Seats line coming (looking.erase t) served tickets := by
  refine ⟨s.nodup_line, s.nodup_looking.sublist (List.erase_sublist.append_left coming), fun u hu => ?_⟩
  exact s.lt_tickets u (hu.imp_right (.imp_right (.imp_left List.mem_of_mem_erase)))

/-- Somebody who looks is served. It keeps its place in the line until it leaves. -/
theorem serve (s : Seats line coming looking served tickets) (ht : t ∈ looking) :
    Seats line coming (looking.erase t) (served ++ [t]) tickets := by
  refine ⟨s.nodup_line, (s.looked t).nodup_looking, fun u hu => ?_⟩
  have hlooked := (s.looked t).lt_tickets u
  have hserved := s.lt_tickets t (.inr (.inr (.inl ht)))
  grind

theorem setOut (s : Seats line coming looking served tickets) (hline : t ∉ line) (hcoming : t ∉ coming)
    (hlooking : t ∉ looking) (hlt : t < tickets) : Seats line (coming ++ [t]) looking served tickets := by
  obtain ⟨hnodup, hnodup', hall⟩ := s
  constructor <;> grind

/-- Somebody new is on the way. -/
theorem come (s : Seats line coming looking served tickets) :
    Seats line (coming ++ [tickets]) looking served (tickets + 1) := by
  have hnew : ¬(tickets ∈ line ∨ tickets ∈ coming ∨ tickets ∈ looking ∨ tickets ∈ served) :=
    fun h => Nat.lt_irrefl tickets (s.lt_tickets tickets h)
  have hmore : Seats line coming looking served (tickets + 1) :=
    ⟨s.nodup_line, s.nodup_looking, fun t ht => Nat.lt_succ_of_lt (s.lt_tickets t ht)⟩
  obtain ⟨hline, hcoming, hlooking, -⟩ := by simpa only [not_or] using hnew
  exact hmore.setOut hline hcoming hlooking (Nat.lt_succ_self tickets)

theorem rise (s : Seats line coming looking served tickets) (ht : t ∈ line) (hlooking : t ∉ looking) :
    Seats (line.erase t) (coming ++ [t]) looking served tickets := by
  obtain ⟨hnodup, -, hne⟩ := List.nodup_append.mp s.nodup_line
  refine (s.giveBack t).setOut hnodup.not_mem_erase ?_ hlooking (s.lt_tickets t (.inl ht))
  exact fun hc => hne t ht t hc rfl

/-- Somebody without a place in the line has looked in vain, and is on the way once more. -/
theorem again (s : Seats line coming looking served tickets) (ht : t ∈ looking) (hline : t ∉ line) :
    Seats line (coming ++ [t]) (looking.erase t) served tickets := by
  obtain ⟨-, hnodup, hne⟩ := List.nodup_append.mp s.nodup_looking
  refine (s.looked t).setOut hline ?_ hnodup.not_mem_erase (s.lt_tickets t (.inr (.inr (.inl ht))))
  exact fun hc => hne t hc t ht rfl

/-- Somebody on the way takes a place in the line and is about to look. -/
theorem enter (s : Seats line coming looking served tickets) (ht : t ∈ coming) :
    Seats (line ++ [t]) (coming.erase t) (looking ++ [t]) served tickets := by
  obtain ⟨hnodup, hnodup', hall⟩ := s
  constructor <;> grind

end Seats

/-- Nobody is at two places in a hall. -/
def Seated (h : Hall σ) : Prop := Seats h.queue.bell.holders h.coming h.looking h.served h.tickets

theorem Seated.nodup (hs : h.Seated) : h.queue.bell.holders.Nodup := (List.nodup_append.mp hs.nodup_line).1

/-- Who is on the way has no place in the line. -/
theorem Seated.not_holder (hs : h.Seated) (ht : t ∈ h.coming) : t ∉ h.queue.bell.holders := fun hl =>
  (List.nodup_append.mp hs.nodup_line).2.2 t hl t ht rfl

theorem Seated.after_rise (hs : h.Seated) (hc : t ∈ h.queue.bell.called) (hl : t ∉ h.looking) :
    (h.after (.rise t)).Seated := by
  have hw : t ∉ h.queue.bell.waiting := fun hw => (List.nodup_append.mp hs.nodup).2.2 t hw t hc rfl
  have herase : ({ h.queue.bell with called := h.queue.bell.called.erase t } : Bell).holders =
      h.queue.bell.holders.erase t := (List.erase_append_right _ hw).symm
  rw [Seated, after, herase]
  exact hs.rise (List.mem_append_right _ hc) hl

/-- Somebody takes a place in the line, or uses up a remembered ring and is about to look without a
place. -/
theorem Seated.after_enter (hs : h.Seated) (ht : t ∈ h.coming) (quietly : Bool) :
    (h.after (.enter t quietly)).Seated := by
  have hplace := Seats.enter hs ht
  -- without a place in the line it is as if the place had been given back
  have hnoplace := hplace.giveBack t
  rw [Bell.erase_append_singleton (hs.not_holder ht)] at hnoplace
  cases quietly with
  | true => exact hnoplace
  | false =>
    simp only [Seated, after, Bool.false_eq_true, if_false, Bell.enter]
    split
    · exact hnoplace
    · refine hplace.perm ?_
      simp only [Bell.holders, Bell.wait, List.append_assoc]
      exact List.perm_append_comm.append_left _

theorem Seated.after_look (hs : h.Seated) (ht : t ∈ h.looking) (take : Key → σ → σ) : (h.look t take).Seated := by
  cases hp : h.queue.pending with
  | cons key rest =>
    rw [look_of_cons hp]
    exact hs.serve ht
  | nil =>
    cases hc : h.queue.closed with
    | true =>
      rw [look_of_closed hp hc]
      exact hs.looked t
    | false =>
      rw [look_of_open hp hc]
      split
      · exact hs.looked t
      · next hl => exact hs.again ht (mt List.mem_append.mp hl)

/-- No move puts anybody at two places. -/
theorem Seated.after (hs : h.Seated) (ha : h.Allows m) : (h.after m).Seated := by
  cases m with
  | change a => exact hs
  | come => exact hs.come
  | giveUp t quietly => exact (hs.giveBack t).perm (Bell.perm_holders_drop hs.nodup t quietly)
  | ring => exact hs.perm (Bell.perm_holders_ring _)
  | callAll => exact hs.perm (Bell.perm_holders_ringAll _)
  | rise t => exact hs.after_rise ha.1 ha.2.1
  | enter t quietly => exact hs.after_enter ha.1 quietly
  | look t take => exact hs.after_look ha take
  | leave t quietly => exact (hs.giveBack t).perm (Bell.perm_holders_drop hs.nodup t quietly)

/-- Every move leaves the queue sound. Only a change and a key that is taken touch its keys, each as
an operation of the queue does. -/
theorem sound_after (hq : h.queue.Sound) (m : Move σ) : (h.after m).queue.Sound := by
  cases m with
  | change a => exact (Sound.act (s := (h.beside, h.queue)) hq a).setBell _
  | come => exact hq
  | giveUp | ring | callAll | rise | enter | leave => exact hq.setBell _
  | look t take =>
    rw [Hall.after]
    cases hp : h.queue.pending with
    | cons key rest =>
      rw [look_of_cons hp]
      exact (hq.handOut hp t).setBell _
    | nil =>
      cases hc : h.queue.closed with
      | true =>
        rw [look_of_closed hp hc]
        exact hq
      | false =>
        rw [look_of_open hp hc]
        split <;> exact hq

/-! ## Who is on the way

The invariant `Attended` compares two numbers while somebody rests: the keys that wait, and those
who are on the way to look (`onTheWay`). A key that is put in adds one to both, since it owes a
ring. A ring that is owed becomes a call, a call becomes somebody on the way, and this one a place
from which it looks, so these moves do not change the count. Whoever looks takes a key, and both
numbers go down; or it finds none, and then there is nothing to count. -/

/-- Somebody waits who has not been called, and is not about to look or to leave. -/
def Rests (h : Hall σ) (t : Ticket) : Prop := t ∈ h.queue.bell.waiting ∧ t ∉ h.looking ∧ t ∉ h.leaving

/-- How many are called, are to be called, or are on the way to look for other reasons. Each of them
will come to look, or pass its call on, without anything that a client has to do. -/
def onTheWay (h : Hall σ) : Nat := h.rings + h.queue.bell.called.length + h.coming.length + h.looking.length

/-- While somebody rests, there is somebody on the way for each key, and whoever has to be told that
the queue was shut is going to be called. A key for which nobody comes would need that everybody who
could take it rests. -/
def Attended (h : Hall σ) : Prop :=
  ∀ t, h.Rests t → h.queue.pending.length ≤ h.onTheWay ∧ (h.queue.closed = true → h.alarm = true)

/-- After everybody has been called nobody rests. -/
theorem Attended.not_warned (hat : h.Attended) (ht : h.Rests t) : ¬h.Warned := by
  rintro ⟨hc, halarm⟩
  rw [(hat t ht).2 hc] at halarm
  cases halarm

/-- A key that is put in owes a ring, so there is one more on the way for it; a queue that is shut
owes the call of everybody. -/
theorem Attended.after_change (hat : h.Attended) (hq : h.queue.Sound) {a : Action σ} (ha : a.isChange = true) :
    (h.change a).Attended := by
  intro t ht
  obtain ⟨hkeys, hclosed⟩ := hat t ht
  have hact : Rings h.queue (act (h.beside, h.queue) a).2 := rings_act (s := (h.beside, h.queue)) hq ha
  simp only [change, onTheWay] at hkeys ⊢
  cases hact with
  | silent hp hc hb =>
    rw [hp, hc]
    refine ⟨by omega, fun h' => ?_⟩
    simp [hclosed h']
  | appended key hp hc hb =>
    rw [hp, hc, List.length_append, List.length_singleton]
    refine ⟨by omega, fun h' => ?_⟩
    simp [hclosed h']
  | shut ho hp hc hb =>
    rw [hp, hc]
    refine ⟨by omega, fun _ => ?_⟩
    simp [ho]

/-- One who gives a place in the line back leaves all the others as they are: a call that it had is
passed on as long as somebody waits. Quietly it goes only when everybody has been called, and then
nobody rests. -/
theorem Attended.of_drop (hat : h.Attended) {quietly : Bool} (hquiet : quietly = true → h.Warned)
    (leaving : List Ticket) (hleft : ∀ u ∈ (h.queue.bell.drop t quietly).waiting, u ∈ h.leaving → u ∈ leaving) :
    ({ h with queue.bell := h.queue.bell.drop t quietly, leaving } : Hall σ).Attended := by
  rintro u ⟨hw, hlooking, hleaving⟩
  have hrests : h.Rests u := ⟨Bell.mem_waiting_of_drop hw, hlooking, fun hl => hleaving (hleft u hw hl)⟩
  obtain ⟨hkeys, hclosed⟩ := hat u hrests
  cases quietly with
  | true => exact absurd (hquiet rfl) (hat.not_warned hrests)
  | false =>
    refine ⟨?_, hclosed⟩
    have hcalled : (h.queue.bell.drop t false).called.length = h.queue.bell.called.length := Bell.length_called_leave hw
    simpa only [onTheWay, hcalled] using hkeys

/-- One who looks takes a key, or finds that none waits. Either way there are enough on the way for
the keys that are left. -/
theorem Attended.after_look (hat : h.Attended) (ht : t ∈ h.looking) (take : Key → σ → σ) :
    (h.look t take).Attended := by
  cases hp : h.queue.pending with
  | cons key rest =>
    rw [look_of_cons hp]
    rintro u ⟨hw, hlooking, hleaving⟩
    -- the one that took the key is about to leave, and does not rest
    have hne : u ≠ t := by rintro rfl; simp at hleaving
    obtain ⟨hkeys, hclosed⟩ := hat u ⟨hw, mt (List.mem_erase_of_ne hne).mpr hlooking, by simp_all⟩
    refine ⟨?_, hclosed⟩
    have hpos := List.length_pos_of_mem ht
    simp only [onTheWay, hp, List.length_cons, handOut, List.length_erase_of_mem ht] at hkeys ⊢
    omega
  | nil =>
    cases hc : h.queue.closed with
    | true =>
      rw [look_of_closed hp hc]
      rintro u ⟨hw, hlooking, hleaving⟩
      have hne : u ≠ t := by rintro rfl; simp at hleaving
      obtain ⟨hkeys, hclosed⟩ := hat u ⟨hw, mt (List.mem_erase_of_ne hne).mpr hlooking, by simp_all⟩
      exact ⟨by simp [hp], hclosed⟩
    | false =>
      rw [look_of_open hp hc]
      split <;> exact fun u hu => ⟨by simp [hp], by simp [hc]⟩

/-- A ring that is owed becomes a call: as long as somebody rests, somebody hears it. -/
theorem Attended.after_ring (hat : h.Attended) (hrings : 0 < h.rings) : (h.after .ring).Attended := by
  rintro u ⟨hw, hu⟩
  obtain ⟨hkeys, hclosed⟩ := hat u ⟨Bell.mem_waiting_of_ring hw, hu⟩
  refine ⟨?_, hclosed⟩
  simp only [onTheWay, Hall.after, Bell.length_called_ring hw] at hkeys ⊢
  omega

theorem Attended.after_rise (hat : h.Attended) (hc : t ∈ h.queue.bell.called) : (h.after (.rise t)).Attended := by
  intro u hu
  obtain ⟨hkeys, hclosed⟩ := hat u hu
  refine ⟨?_, hclosed⟩
  have hpos := List.length_pos_of_mem hc
  simp only [onTheWay, Hall.after, List.length_erase_of_mem hc, List.length_append, List.length_singleton] at hkeys ⊢
  omega

/-- One on the way takes a place and is about to look; it is still among those who will come to
look. -/
theorem Attended.after_enter (hat : h.Attended) (ht : t ∈ h.coming) (quietly : Bool) :
    (h.after (.enter t quietly)).Attended := by
  rintro u ⟨hw, hlooking, hleaving⟩
  have hne : u ≠ t := by rintro rfl; simp [Hall.after] at hlooking
  have hcalled : (h.after (.enter t quietly)).queue.bell.called = h.queue.bell.called := by
    simp only [Hall.after, Bell.enter]
    split
    · rfl
    · split <;> rfl
  -- whoever rests has waited before, as it is not the one who has just taken a place
  have hwaited : u ∈ h.queue.bell.waiting := by
    simp only [Hall.after, Bell.enter] at hw
    split at hw
    · exact hw
    · split at hw
      · exact hw
      · exact (List.mem_append.mp hw).resolve_right (by simpa using hne)
  obtain ⟨hkeys, hclosed⟩ := hat u ⟨hwaited, fun hl => hlooking (List.mem_append_left _ hl), hleaving⟩
  refine ⟨?_, hclosed⟩
  have hpos := List.length_pos_of_mem ht
  rw [onTheWay, hcalled]
  simp only [onTheWay, Hall.after, List.length_erase_of_mem ht, List.length_append, List.length_singleton] at hkeys ⊢
  omega

/-- Every move leaves somebody on the way for each key while somebody rests. -/
theorem Attended.after (hat : h.Attended) (hs : h.Seated) (hq : h.queue.Sound) (ha : h.Allows m) :
    (h.after m).Attended := by
  cases m with
  | change a => exact hat.after_change hq ha
  | come =>
    intro u hu
    obtain ⟨hkeys, hclosed⟩ := hat u hu
    refine ⟨Nat.le_trans hkeys ?_, hclosed⟩
    simp only [onTheWay, Hall.after, List.length_append]
    omega
  | giveUp t quietly => exact hat.of_drop ha.2.2.2 h.leaving fun _ _ hl => hl
  | ring => exact hat.after_ring ha
  | callAll => exact fun u hu => absurd hu.1 List.not_mem_nil
  | rise t => exact hat.after_rise ha.1
  | enter t quietly => exact hat.after_enter ha.1 quietly
  | look t take => exact hat.after_look ha take
  | leave t quietly =>
    refine hat.of_drop ha.2 _ fun u hw hl => (List.mem_erase_of_ne ?_).mpr hl
    rintro rfl
    have hmem := (Bell.perm_holders_drop hs.nodup u quietly).mem_iff.mp (List.mem_append_left _ hw)
    exact hs.nodup.not_mem_erase hmem

/-! ## Whole runs -/

/-- What is true of a hall at every moment. -/
structure Kept (h : Hall σ) : Prop where
  /-- the queue is sound -/
  sound : h.queue.Sound
  /-- nobody is at two places -/
  seated : h.Seated
  /-- there is somebody on the way for each key while somebody rests -/
  attended : h.Attended

theorem kept_opened (beside : σ) : (opened beside).Kept where
  sound := sound_empty
  seated := Seats.empty
  attended _ ht := absurd ht.1 List.not_mem_nil

/-- Every move keeps all three. The queue is sound by itself; that somebody is on the way needs the
other two. -/
theorem Kept.after (hk : h.Kept) (ha : h.Allows m) : (h.after m).Kept where
  sound := sound_after hk.sound m
  seated := hk.seated.after ha
  attended := hk.attended.after hk.seated hk.sound ha

/-- What `Kept` says holds along every run of moves that are possible, whoever begins them and
whenever. -/
theorem Kept.of_possible (hk : h.Kept) {moves : List (Move σ)} (hp : Possible h moves) :
    (h.afterAll moves).Kept := by
  induction moves generalizing h with
  | nil => exact hk
  | cons m moves ih => exact ih (hk.after hp.1) hp.2

/-- Where nobody is in the middle of anything, nobody waits while a key does, or at a queue that is
shut: then nobody is on the way, so by `Attended` there is no key. -/
theorem Kept.nothing_missed (hk : h.Kept) (hs : h.Settled) (hw : h.queue.bell.waiting ≠ []) :
    h.queue.pending = [] ∧ h.queue.closed = false := by
  obtain ⟨hrings, halarm, hcalled, hcoming, hlooking, hleaving⟩ := settled_iff.mp hs
  obtain ⟨t, ht⟩ := List.exists_mem_of_ne_nil _ hw
  obtain ⟨hkeys, hclosed⟩ := hk.attended t ⟨ht, by simp [hlooking], by simp [hleaving]⟩
  refine ⟨List.eq_nil_of_length_eq_zero ?_, Bool.eq_false_iff.mpr fun hc => ?_⟩
  · simpa [onTheWay, hrings, hcalled, hcoming, hlooking] using hkeys
  · rw [hclosed hc] at halarm
    cases halarm

end Queue.Hall

end ControlLoop
