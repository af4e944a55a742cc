import Mathlib.Data.List.Nodup
import Mathlib.Data.List.TakeDrop
import Mathlib.Logic.Relation
import ControlLoop.Loop.Handler
import ControlLoop.Proofs.Bench.Basic

/-!
# Turns in any order

A bench lets the tasks in its line run in the order in which they were woken. Here whose turn it is
is left open: any task in the line may take the next turn (`turn`). A client who comes to the bench
(`Visit`) asks things of it and lets time pass; while it waits the tasks take turns, until none is
left, and then time jumps to the next alarm. What holds of all that may happen so holds whatever the
order of the tasks; the order of the bench is one of them (`leads_of_carry?`).

What a client does is an `Errand`: it asks something of the loop, which is a `Request`, or lets some
time pass. `Visit` is the bench together with the errands that are left, `Visit.Step` what can
happen next, `Visit.Leads` what may have happened after a while. `Visit.GetsThrough` says that the
errands come to their end whatever happens next: it is an inductive statement about the tree of all
that can happen, so no order of the tasks keeps the client for ever.
-/

namespace ControlLoop

/-- What a client asks of a loop. The wall clock is only ever set forward, as in a `Deed`; and no
request asks what it shows, so a client decides by the time as little as a `Handler` does. -/
inductive Request where
  /-- to run -/
  | run
  /-- to stop -/
  | stop
  /-- to handle a key -/
  | trigger (key : Key) (kind : Trigger)
  /-- that the wall clock be set forward -/
  | advanceClock (span : Span)

/-- What a client does: it asks something of the loop, or lets time pass. -/
inductive Errand where
  /-- it asks something of the loop -/
  | ask (request : Request)
  /-- it lets time pass -/
  | wait (span : Span)

namespace Bench

section line

variable {τ : Type} [DecidableEq τ] {task t : τ} {ready tasks : List τ}

theorem mem_enter : t ∈ enter ready task ↔ t ∈ ready ∨ t = task := by
  unfold enter
  split
  · next h =>
    constructor
    · exact .inl
    · rintro (ht | rfl)
      · exact ht
      · exact h
  · rw [List.mem_append, List.mem_singleton]

theorem nodup_enter (h : ready.Nodup) : (enter ready task).Nodup := by
  unfold enter
  split
  · exact h
  · next hmem => exact List.concat_eq_append ▸ h.concat hmem

theorem mem_join : t ∈ join ready tasks ↔ t ∈ ready ∨ t ∈ tasks := by
  rw [join_eq_foldl]
  induction tasks generalizing ready with
  | nil => simp
  | cons task tasks ih => rw [List.foldl_cons, ih, mem_enter, List.mem_cons, or_assoc]

theorem join_of_subset (h : tasks ⊆ ready) : join ready tasks = ready := by
  rw [join_eq_foldl]
  induction tasks with
  | nil => rfl
  | cons task tasks ih =>
    obtain ⟨hmem, hsub⟩ := List.cons_subset.mp h
    have henter : enter ready task = ready := if_pos hmem
    rw [List.foldl_cons, henter]
    exact ih hsub

theorem nodup_join (h : ready.Nodup) : (join ready tasks).Nodup := by
  rw [join_eq_foldl]
  induction tasks generalizing ready with
  | nil => exact h
  | cons task tasks ih => exact ih (nodup_enter h)

end line

variable {σ τ : Type} [DecidableEq τ] {m : Machine σ τ}

/-! ## Turns -/

/-- A task in the line takes its turn; it need not be the first. -/
def turn (b : Bench m) (task : τ) : Bench m :=
  let turn := m.step b.now task b.state
  let b := match turn.next with
    | .goOn => b
    | .wait => { b with ready := b.ready.erase task }
    | .sleepUntil moment => { b with ready := b.ready.erase task, alarms := setAlarm b.alarms moment task }
  b.modify turn.state turn.started

/-- A client at a bench. It is the only one, and it never acts while tasks are half way: its
requests follow each other without a break, or else it lets time pass, which ends only when all
tasks rest. Meanwhile the tasks, and what a handler asks of its own loop among them, come in any
order. -/
structure Visit (m : Machine σ τ) where
  /-- the bench -/
  bench : Bench m
  /-- until when the client lets time pass, if it does so -/
  waits : Option Moment := none
  /-- what the client still has to do -/
  errands : List Errand

/-- What can happen next; `ask` says what a request does to the bench. -/
inductive Visit.Step (ask : Bench m → Request → Bench m) : Visit m → Visit m → Prop where
  /-- the client asks something, and nothing else happens meanwhile -/
  | ask {b request errands} : Step ask ⟨b, none, .ask request :: errands⟩ ⟨ask b request, none, errands⟩
  /-- it begins to let time pass -/
  | wait {b span errands} : Step ask ⟨b, none, .wait span :: errands⟩ ⟨b, some (b.now + span.nanos), errands⟩
  /-- a task takes its turn -/
  | turn {b task target errands} (h : task ∈ b.ready) :
    Step ask ⟨b, some target, errands⟩ ⟨b.turn task, some target, errands⟩
  /-- the next alarm goes off -/
  | wake {b alarm target errands} (hr : b.ready = []) (ha : alarm ∈ b.alarms.head?)
      (hdue : b.now < alarm.1 ∧ alarm.1 ≤ target) :
    Step ask ⟨b, some target, errands⟩ ⟨b.jump alarm.1, some target, errands⟩
  /-- no alarm goes off any more, and time has passed -/
  | still {b target errands} (hr : b.ready = [])
      (hlate : ∀ alarm ∈ b.alarms.head?, ¬(b.now < alarm.1 ∧ alarm.1 ≤ target)) :
    Step ask ⟨b, some target, errands⟩ ⟨{ b with now := max b.now target }, none, errands⟩

/-- What may have happened after a while. -/
def Visit.Leads (ask : Bench m → Request → Bench m) : Visit m → Visit m → Prop := Relation.ReflTransGen (Visit.Step ask)

/-- The client gets through its errands, whichever of the things that can happen next happens,
unless a state is come by that is not fair. -/
inductive Visit.GetsThrough (ask : Bench m → Request → Bench m) (Fair : σ → Prop) : Visit m → Prop where
  /-- it has done -/
  | done {b} : GetsThrough ask Fair ⟨b, none, []⟩
  /-- something happens, and then it gets through -/
  | goesOn {v v'} (hs : Visit.Step ask v v')
      (h : ∀ v', Visit.Step ask v v' → Fair v'.bench.state → GetsThrough ask Fair v') : GetsThrough ask Fair v

variable {ask : Bench m → Request → Bench m} {b c : Bench m} {task t : τ} {target : Moment} {errands : List Errand}
  {steps jumps : Nat}

theorem turn_of_goOn {s : σ} {started : List τ} (h : m.step b.now task b.state = ⟨s, .goOn, started⟩) :
    b.turn task = b.modify s started := by
  rw [turn, h]

/-- A task that waits leaves the line, until it is woken. -/
theorem turn_of_wait {s : σ} {started : List τ} (h : m.step b.now task b.state = ⟨s, .wait, started⟩) :
    b.turn task = { b with ready := b.ready.erase task }.modify s started := by
  rw [turn, h]

/-- A task that waits leaves the line, if nobody but those in it can go on. This is what makes tasks
that have nothing to do come to rest, although none of them is told so. -/
theorem length_ready_turn_lt {s : σ} (hmem : task ∈ b.ready) (h : m.step b.now task b.state = ⟨s, .wait, []⟩)
    (hsub : m.awake b.now s ⊆ b.ready.erase task) : (b.turn task).ready.length < b.ready.length := by
  rw [turn_of_wait h]
  show (join (b.ready.erase task) (m.awake b.now s)).length < _
  rw [join_of_subset hsub, List.length_erase_of_mem hmem]
  exact Nat.sub_one_lt_of_lt (List.length_pos_of_mem hmem)

theorem turn_of_sleepUntil {s : σ} {started : List τ} {moment : Moment}
    (h : m.step b.now task b.state = ⟨s, .sleepUntil moment, started⟩) :
    b.turn task =
      { b with ready := b.ready.erase task, alarms := setAlarm b.alarms moment task }.modify s started := by
  rw [turn, h]

/-- The task of the only alarm is alone in the line when it has gone off. -/
theorem jump_of_alarm {t : Moment} (hr : b.ready = []) (ha : b.alarms = [(t, task)]) :
    b.jump t = { b with now := t, ready := [task], alarms := [] } := by
  rw [jump, ha, hr, List.span_eq_takeWhile_dropWhile]
  simp [join, strike, enter]

omit [DecidableEq τ] in
/-- The only alarm, which was not due before, lies ahead of the moment up to which time passes. -/
theorem max_lt_of_late {t : Moment} (ha : b.alarms = [(t, task)]) (hlt : b.now < t)
    (hlate : ∀ alarm ∈ b.alarms.head?, ¬(b.now < alarm.1 ∧ alarm.1 ≤ target)) : max b.now target < t := by
  have hbefore : ¬(b.now < t ∧ t ≤ target) := hlate (t, task) (by rw [ha]; rfl)
  exact Nat.max_lt.mpr ⟨hlt, Nat.lt_of_not_le fun hle => hbefore ⟨hlt, hle⟩⟩

theorem mem_ready_modify {state : σ} {started : List τ} :
    t ∈ (b.modify state started).ready ↔ t ∈ b.ready ∨ t ∈ started ∨ t ∈ m.awake b.now state := by
  rw [modify, mem_join, List.mem_append]

/-- Something happens until the client has done: while it acts its next errand is there, and while
it waits there is a task in the line, or an alarm, or the moment that it waits for. -/
theorem Visit.done_or_step (ask : Bench m → Request → Bench m) (v : Visit m) :
    v.waits = none ∧ v.errands = [] ∨ ∃ v', Visit.Step ask v v' := by
  obtain ⟨b, waits, errands⟩ := v
  cases waits with
  | none =>
    cases errands with
    | nil => exact .inl ⟨rfl, rfl⟩
    | cons errand errands =>
      cases errand with
      | ask request => exact .inr ⟨_, .ask⟩
      | wait span => exact .inr ⟨_, .wait⟩
  | some target =>
    refine .inr ?_
    cases hr : b.ready with
    | cons task ready => exact ⟨_, .turn (hr ▸ List.mem_cons_self)⟩
    | nil =>
      by_cases hlate : ∀ alarm ∈ b.alarms.head?, ¬(b.now < alarm.1 ∧ alarm.1 ≤ target)
      · exact ⟨_, .still hr hlate⟩
      · obtain ⟨alarm, hnot⟩ := not_forall.mp hlate
        obtain ⟨halarm, hdue⟩ := Classical.not_imp.mp hnot
        exact ⟨_, .wake hr halarm (not_not.mp hdue)⟩

/-! ## The order of the bench

The bench lets the first task in its line run, which is one of those in the line. So what it does is
one of the things that may happen, as far as its tasks come to rest within the steps that it allows
them. -/

/-- The first task in the line is one of those in the line. -/
theorem step?_eq_turn (h : b.step? = some c) : ∃ task ∈ b.ready, c = b.turn task := by
  unfold step? at h
  split at h
  · cases h
  · next task ready hready =>
    cases h
    refine ⟨task, hready ▸ List.mem_cons_self, ?_⟩
    have herase : b.ready.erase task = ready := by rw [hready, List.erase_cons_head]
    unfold turn
    exact herase ▸ rfl

/-- When the bench lets the tasks run they take turns in one of the orders. The induction is on the
number of turns. -/
theorem leads_of_settle (fuel : Nat) :
    Visit.Leads ask ⟨b, some target, errands⟩ ⟨b.settle fuel, some target, errands⟩ := by
  induction fuel generalizing b with
  | zero => exact .refl
  | succ fuel ih =>
    unfold settle
    split
    · exact .refl
    · next c hstep =>
      obtain ⟨task, hmem, rfl⟩ := step?_eq_turn hstep
      exact .head (.turn hmem) ih

/-- What a client asked has come about before any time passes, if the tasks come to rest. -/
theorem leads_of_rest (hr : (b.settle steps).ready = []) :
    Visit.Leads ask ⟨b, none, .wait .zero :: errands⟩ ⟨b.settle steps, none, errands⟩ := by
  have hnow := settle_now steps b
  have hstill : Visit.Step ask ⟨b.settle steps, some b.now, errands⟩
      ⟨{ b.settle steps with now := max (b.settle steps).now b.now }, none, errands⟩ := by
    refine .still hr ?_
    rintro alarm - ⟨hlt, hle⟩
    rw [hnow] at hlt
    exact Nat.not_le_of_lt hlt hle
  have hsame : ({ b.settle steps with now := max (b.settle steps).now b.now } : Bench m) = b.settle steps := by
    rw [hnow, Nat.max_self, ← hnow]
  rw [hsame] at hstill
  exact .head .wait ((leads_of_settle steps).tail hstill)

/-- Lets time pass up to a moment in the order of the bench, as far as the tasks come to rest within
some steps and some jumps. -/
def pass? (steps : Nat) (target : Moment) : (jumps : Nat) → Bench m → Option (Bench m)
  | 0, _ => none
  | jumps + 1, b =>
    let c := b.settle steps
    if c.ready = [] then
      match c.alarms with
      | [] => some { c with now := max c.now target }
      | alarm :: _ =>
        if c.now < alarm.1 ∧ alarm.1 ≤ target then pass? steps target jumps (c.jump alarm.1)
        else some { c with now := max c.now target }
    else none

/-- Runs errands in the order of the bench, as far as the tasks come to rest within some steps and
some jumps. -/
def carry? (ask : Bench m → Request → Bench m) (steps jumps : Nat) : Bench m → List Errand → Option (Bench m)
  | b, [] => some b
  | b, .ask request :: errands => carry? ask steps jumps (ask b request) errands
  | b, .wait span :: errands => do
    let c ← pass? steps (b.now + span.nanos) jumps b
    carry? ask steps jumps c errands

/-- If `pass?` comes to a result, it is what the bench itself does (`Bench.passTo`). -/
theorem passTo_of_pass? (h : pass? maxSteps target jumps b = some c) : passTo target (fun _ => false) b = c := by
  induction jumps generalizing b with
  | zero => cases h
  | succ jumps ih =>
    simp only [pass?] at h
    rw [passTo]
    split at h
    · cases halarms : (b.settle maxSteps).alarms with
      | nil =>
        simp only [halarms] at h ⊢
        cases h
        rfl
      | cons alarm alarms =>
        simp only [halarms] at h ⊢
        by_cases hdue : (b.settle maxSteps).now < alarm.1 ∧ alarm.1 ≤ target
        · rw [if_pos hdue] at h
          simpa [hdue] using ih h
        · rw [if_neg hdue] at h
          cases h
          simp [hdue]
    · cases h

/-- Time that passes in the order of the bench is time that passes in one of the orders. -/
theorem leads_of_pass? (h : pass? steps target jumps b = some c) :
    Visit.Leads ask ⟨b, some target, errands⟩ ⟨c, none, errands⟩ := by
  induction jumps generalizing b with
  | zero => cases h
  | succ jumps ih =>
    simp only [pass?] at h
    refine (leads_of_settle steps).trans ?_
    split at h
    · next hready =>
      split at h
      · next hnone =>
        cases h
        exact .single (.still hready (by simp [hnone]))
      · next alarm _ halarms =>
        split at h
        · next hdue => exact .head (.wake hready (by simp [halarms]) hdue) (ih h)
        · next hlate =>
          cases h
          exact .single (.still hready (by simpa [halarms] using hlate))
    · cases h

/-- When a client sleeps at the bench, what happens is one of the things that may happen while it
lets time pass. -/
theorem leads_of_advance {span : Span}
    (h : (pass? maxSteps (b.now + (min span longestSleep).nanos) jumps b).isSome) :
    Visit.Leads ask ⟨b, none, .wait (min span longestSleep) :: errands⟩ ⟨b.advance span, none, errands⟩ := by
  obtain ⟨c, hpass⟩ := Option.isSome_iff_exists.mp h
  have hadvance : b.advance span = c := passTo_of_pass? hpass
  rw [hadvance]
  exact .head .wait (leads_of_pass? hpass)

/-- Errands that are run in the order of the bench are run in one of the orders. -/
theorem leads_of_carry? (h : carry? ask steps jumps b errands = some c) :
    Visit.Leads ask ⟨b, none, errands⟩ ⟨c, none, []⟩ := by
  induction errands generalizing b with
  | nil =>
    cases h
    exact .refl
  | cons errand errands ih =>
    cases errand with
    | ask request => exact .head .ask (ih h)
    | wait span =>
      obtain ⟨d, hpass, hcarry⟩ := Option.bind_eq_some_iff.mp h
      exact .head .wait ((leads_of_pass? hpass).trans (ih hcarry))

end Bench

end ControlLoop
