import ControlLoop.Proofs.Pool.Closing
import ControlLoop.Proofs.Pool.Drain
import ControlLoop.Proofs.Queue.Wakeups

/-!
# A single worker does not sleep over a key

The only worker of a pool waits for the bell only while no key waits for it and the queue is open,
and has been called whenever it might do something (`Attentive`). No step but its own makes it lose
a call (`perm_holders_of_act`).

If such a pool also forgives no failure and has no resync, then every attempt is the first
(`retryCount_of_run`), and at each step the triggers at hand change by those that are accepted and
recorded (`balance_of_run`).

With more than one worker none of this would have to hold at every moment: a call may be under way
to somebody else. That is why whoever compares a pool with a serial loop asks for one worker.
-/

namespace ControlLoop

/-- A ring calls the only one who waits. -/
theorem Bell.waiting_ring {b : Bell} (h : b.holders.length ≤ 1) : b.ring.waiting = [] := by
  cases hw : b.waiting with
  | nil => rw [ring_of_nil hw, hw]
  | cons t rest =>
    rw [holders, hw, List.length_append, List.length_cons] at h
    have hrest : rest.length = 0 := by omega
    rw [ring_of_cons hw]
    exact List.length_eq_zero_iff.mp hrest

namespace Queue

/-- Putting a key in makes no key wait, or rings. -/
theorem insert_cases (q : Queue) (key : Key) :
    (q.insert key).pending = q.pending ∧ (q.insert key).bell = q.bell ∨ (q.insert key).bell = q.bell.ring := by
  unfold insert
  split
  · exact .inl ⟨rfl, rfl⟩
  · split
    · exact .inl ⟨rfl, rfl⟩
    · exact .inr rfl

/-- A ring moves tickets from those who wait to those who are called, and strikes none off. -/
theorem perm_holders_insert (q : Queue) (key : Key) : (q.insert key).bell.holders.Perm q.bell.holders := by
  rcases q.insert_cases key with ⟨-, hbell⟩ | hbell <;> rw [hbell]
  exact Bell.perm_holders_ring _

end Queue

namespace Pool

variable {setup : Setup} {clocks : Clocks} {p q : Pool} {a : Action} {notices : List Notice} {i : Nat} {old new : Stage}
  {key : Key}

/-- A worker keeps its place at the bell, or its call, as long as it does nothing itself. -/
theorem perm_holders_of_act (hp : p.Sound setup) (ha : ∀ i, a ≠ .work i)
    (hact : p.act setup clocks a = some (q, notices)) :
    q.queue.bell.holders.Perm p.queue.bell.holders := by
  cases step_of_act hact with
  | accepted | put => exact Queue.perm_holders_insert ..
  | fired _ hm =>
    rw [(hp.queue.fire_of_delayed hm).2]
    exact Queue.perm_holders_insert ..
  | lapsed hm =>
    rw [Queue.fire_of_not_delayed hm]
  | shut hs =>
    rw [Queue.shutDown_of_open (hp.open_of_endingResync hs)]
    exact Bell.perm_holders_ringAll _
  | refused | started | stopRequested | succeeded | failed | ticked | putLate | resyncEnded | heard | passedOver
  | closedOut | forgot | stopped => exact .refl _
  | took | left | waited | released | began | dropped | kept | retriedAtOnce | retryCovered | retryDelayed
  | retryRefused | recorded => exact absurd rfl (ha _)

/-- The only worker does not sleep over a key: if a key waits, the worker is not asleep at the bell,
or it has been called. -/
structure Attentive (p : Pool) : Prop where
  /-- only the worker goes to the bell, and only while it asks for a key -/
  holders : p.queue.bell.holders = [] ∨ p.queue.bell.holders = [0] ∧ p.workers = [.asking]
  /-- if it waits uncalled there is no key for it, and more may come -/
  waits : p.queue.bell.waiting ≠ [] → p.queue.pending = [] ∧ p.queue.closed = false

namespace Attentive

theorem of_nobody (h : q.queue.bell.holders = []) : q.Attentive where
  holders := .inl h
  waits hne := absurd (List.append_eq_nil_iff.mp h).1 hne

/-- Putting a key in keeps the worker attentive: if it waits, the ring calls it. -/
theorem insert (h : p.Attentive) (hw : q.workers = p.workers) (hq : q.queue = p.queue.insert key) : q.Attentive := by
  have hperm := p.queue.perm_holders_insert key
  rw [← hq] at hperm
  rcases h.holders with hnone | ⟨hone, hasking⟩
  · rw [hnone] at hperm
    exact .of_nobody hperm.eq_nil
  · rw [hone] at hperm
    refine ⟨.inr ⟨List.perm_singleton.mp hperm, hw.trans hasking⟩, fun hne => ?_⟩
    rw [hq] at hne ⊢
    rcases p.queue.insert_cases key with ⟨hpending, hbell⟩ | hbell
    · rw [hbell] at hne
      rw [hpending, Queue.insert_closed]
      exact h.waits hne
    · rw [hbell] at hne
      exact absurd (Bell.waiting_ring (by rw [hone]; exact Nat.le_refl 1)) hne

/-- A worker that does not ask for a key is not at the bell. -/
theorem nobody (h : p.Attentive) (hw : p.workers[i]? = some old) (ho : old ≠ .asking) : p.queue.bell.holders = [] := by
  rcases h.holders with hnone | ⟨-, hasking⟩
  · exact hnone
  · rw [hasking] at hw
    exact absurd (List.mem_singleton.mp (List.mem_of_getElem? hw)) ho

/-- A worker that the bell has called can go on. -/
theorem isSome_work (h : p.Attentive) (hi : i ∈ p.queue.bell.called) : (p.act setup clocks (.work i)).isSome := by
  rcases h.holders with hnone | ⟨hone, hasking⟩
  · rw [(List.append_eq_nil_iff.mp hnone).2] at hi
    cases hi
  · rcases List.append_eq_singleton_iff.mp hone with ⟨hwaiting, hcalled⟩ | ⟨-, hcalled⟩
    · rw [hcalled] at hi
      obtain rfl := List.mem_singleton.mp hi
      simp [Pool.act, work, hasking, hwaiting]
    · rw [hcalled] at hi
      cases hi

/-- A worker that is back at the queue leaves the bell. -/
theorem arrive (h : p.Attentive) (hw : p.workers[i]? = some old) (hb : i ∉ p.queue.bell.waiting) :
    (p.queue.bell.arrive i).holders = [] := by
  rcases h.holders with hnone | ⟨hone, hasking⟩
  · obtain ⟨hwaiting, hcalled⟩ := List.append_eq_nil_iff.mp hnone
    simp [Bell.holders, Bell.arrive, hwaiting, hcalled]
  · rw [hasking] at hw
    obtain ⟨hi, -⟩ := List.getElem?_eq_some_iff.mp hw
    obtain rfl : i = 0 := Nat.lt_one_iff.mp hi
    rcases List.append_eq_singleton_iff.mp hone with ⟨hwaiting, hcalled⟩ | ⟨hwaiting, hcalled⟩
    · simp [Bell.holders, Bell.arrive, hwaiting, hcalled]
    · exact absurd (hwaiting ▸ List.mem_singleton.mpr rfl) hb

/-- Every step keeps the worker attentive. It comes to the bell only when it has just found the
queue open and empty, and a key that is put in later rings. -/
theorem act (h : p.Attentive) (hp : p.Sound setup) (hw : setup.workers = 1)
    (hact : p.act setup clocks a = some (q, notices)) : q.Attentive := by
  cases step_of_act hact with
  | accepted | put => exact h.insert rfl rfl
  | refused | stopRequested | ticked | putLate | resyncEnded | heard | passedOver | closedOut | forgot | stopped =>
    exact ⟨h.holders, h.waits⟩
  -- before the pool ran nobody could have come to the bell
  | started hi =>
    obtain ⟨hnone, -⟩ := hp.idle hi
    refine .of_nobody (h.holders.resolve_right ?_)
    rintro ⟨-, hasking⟩
    cases hnone.symm.trans hasking
  | took hw hb | left hw hb => exact .of_nobody (h.arrive hw hb)
  | @waited i hstage hb hpending ho =>
    have hlength := hp.length_workers (hp.phase_ne_idle hstage)
    rw [hw] at hlength
    obtain ⟨stage, hworkers⟩ := List.length_eq_one_iff.mp hlength
    rw [hworkers] at hstage
    obtain ⟨hi, hstage⟩ := List.getElem?_eq_some_iff.mp hstage
    obtain rfl : i = 0 := Nat.lt_one_iff.mp hi
    obtain rfl : stage = .asking := hstage
    have hasking : p.workers[0]? = some .asking := by rw [hworkers]; rfl
    obtain ⟨hwaiting, hcalled⟩ := List.append_eq_nil_iff.mp (h.arrive hasking hb)
    refine ⟨.inr ⟨?_, hworkers⟩, fun _ => ⟨hpending, ho⟩⟩
    show ((p.queue.bell.arrive 0).wait 0).holders = [0]
    rw [Bell.holders, Bell.wait, hwaiting, hcalled]
    rfl
  -- a key that comes back may ring, which nobody hears
  | @released i key hstage =>
    have hnobody := h.nobody hstage (by simp)
    refine .of_nobody ?_
    show (p.queue.done key).bell.holders = []
    by_cases hd : key ∈ p.queue.dirty
    · rw [Queue.done_of_mem_dirty hd]
      have hperm := Bell.perm_holders_ring p.queue.bell
      rw [hnobody] at hperm
      exact hperm.eq_nil
    · rw [Queue.done_of_not_mem_dirty hd]
      exact hnobody
  | began hw | succeeded hw | failed hw | dropped hw | kept hw | retryCovered hw | retryDelayed hw | retryRefused hw
  | recorded hw => exact .of_nobody (h.nobody hw (by simp))
  | @retriedAtOnce i a d e f hstage =>
    have hperm := p.queue.perm_holders_insert a.key
    rw [h.nobody hstage (by simp)] at hperm
    exact .of_nobody hperm.eq_nil
  | @fired key m _ hm =>
    let queue := { p.queue with timers := p.queue.timers.erase (key, m), delayed := p.queue.delayed.erase key }
    have hcleared : Attentive { p with queue } := ⟨h.holders, h.waits⟩
    exact hcleared.insert rfl (hp.queue.fire_of_delayed hm).2
  | lapsed hm =>
    rw [Queue.fire_of_not_delayed hm]
    exact ⟨h.holders, h.waits⟩
  | shut hs =>
    have hperm := Bell.perm_holders_ringAll p.queue.bell
    rw [Queue.shutDown_of_open (hp.open_of_endingResync hs)]
    refine ⟨h.holders.imp (fun hnone => ?_) (fun hone => ⟨?_, hone.2⟩), fun hne => absurd rfl hne⟩
    · exact (hnone ▸ hperm).eq_nil
    · exact List.perm_singleton.mp (hone.1 ▸ hperm)

end Attentive

/-! ## Runs -/

variable {capacity : Nat} {steps : List (Clocks × Action)} {log : Log}

theorem attentive_fresh (capacity : Nat) : (fresh capacity).Attentive := .of_nobody rfl

/-- The only worker is attentive along every run: it is so at first, and `Attentive.act` keeps it
so. -/
theorem attentive_of_run (hw : setup.workers = 1) (h : run setup (fresh capacity) steps = some (p, log)) :
    p.Attentive := by
  have hkeeps := run_keeps (fun p => p.Sound setup ∧ p.Attentive)
    (fun hp hact => ⟨sound_of_act hp.1 hact, hp.2.act hp.1 hw hact⟩) ⟨sound_fresh setup capacity, attentive_fresh _⟩ h
  exact hkeeps.2

theorem mobile_of_run (h : run setup (fresh capacity) steps = some (p, log)) : p.Mobile := by
  have hkeeps := run_keeps (fun p => p.Sound setup ∧ p.Mobile)
    (fun hp hact => ⟨sound_of_act hp.1 hact, mobile_of_act hp.2 hp.1 hact⟩)
    ⟨sound_fresh setup capacity, mobile_fresh _⟩ h
  exact hkeeps.2

/-- Along every run the supervisor heeds the signal to stop. -/
theorem heeds_of_run (h : run setup (fresh capacity) steps = some (p, log)) : p.Heeds :=
  run_keeps Heeds (fun hp hact => heeds_of_act hp hact) (.inl rfl) h

/-- A pool that is made without a resync has none. -/
theorem resync_of_run (hr : setup.resync = none) (h : run setup (fresh capacity) steps = some (p, log)) :
    p.resync = .absent := by
  refine run_keeps (·.resync = .absent) (fun {p q clocks a notices} hp hact => ?_) rfl h
  cases a with
  | endResync =>
    simp only [act, hp] at hact
    cases hact
  | tick keys =>
    simp only [act, tick, hp] at hact
    cases hact
  | put key =>
    simp only [act, put, hp] at hact
    cases hact
  | run =>
    cases step_of_act hact
    simp only [start, hr]
  | trigger | stop | work | finish | fire | supervise => cases step_of_act hact <;> exact hp

/-- If no failure is forgiven every attempt is the first. -/
theorem retryCount_of_run (hl : setup.retryLimit = 0) (h : run setup (fresh capacity) steps = some (p, log))
    {kind : Trigger} (hw : p.workers[i]? = some (.holding key kind)) : p.retryCount key = 0 := by
  have htally := tally_of_run h key
  have hplace := (sound_of_run h).place_of_holder hw rfl
  have hfailures : p.retryCount key = expectedCount (recordsOf key log) := htally.stage hplace
  have hlimit := htally.law.expectedCount_le
  omega

/-! ## The triggers at hand

`line` is what waits, and `Stage.inHand` what the worker has. By `InLine.order` what was accepted
is, at every moment, what has been recorded, what is in hand and what waits, one behind the other.
Both before and after a step this is so, and the difference is what the step has done. -/

/-- The triggers that wait, each with what it was set off by. -/
def line (p : Pool) : List (Key × Trigger) := p.queue.pending.map fun key => (key, p.kindOf key)

/-- The triggers at hand, those in the hands of workers before those that wait, become more by what
is accepted, and fewer by what is recorded. A step thus moves triggers along this line, and loses
none of them. -/
theorem balance_of_run (hw : setup.workers = 1) (hl : setup.retryLimit = 0)
    (h : run setup (fresh capacity) steps = some (p, log)) (hact : p.act setup clocks a = some (q, notices))
    (hn : ((acceptedIn (log ++ notices.map (clocks.now, ·))).map Prod.fst).Nodup) :
    p.workers.flatMap Stage.inHand ++ p.line ++ notices.filterMap Notice.accepted? =
      (notices.filterMap Notice.record?).map Record.cause ++ (q.workers.flatMap Stage.inHand ++ q.line) := by
  have haccepted : acceptedIn (notices.map (clocks.now, ·)) = notices.filterMap Notice.accepted? := List.filterMap_map
  rw [acceptedIn_append, haccepted] at hn
  have hearlier : ((acceptedIn log).map Prod.fst).Nodup := by
    rw [List.map_append] at hn
    exact (List.nodup_append.mp hn).1
  -- before the step and after it, what was recorded, what is in hand and what waits are together what was accepted
  have hbefore := inLine_of_run hw hl h hearlier
  have hafter := (hbefore.act (sound_of_run h) hw hl hact hn).order
  have horder := hbefore.order
  rw [horder, List.append_assoc, List.append_assoc, List.append_assoc, List.append_assoc, List.append_cancel_left_eq]
    at hafter
  rw [line, line, List.append_assoc]
  exact hafter

end Pool

end ControlLoop
