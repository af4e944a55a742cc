import Mathlib.Computability.StateTransition
import ControlLoop.Loop.Serial
import ControlLoop.Proofs.Bench.Rig
import ControlLoop.Proofs.Pool.InLine

/-!
# The desk

What a loop comes to that has one worker, tries nothing again and is given no key twice: a desk with
a line of triggers, which are worked off one after the other. An `Office` is a desk at some moment;
there is always one thing at most to be done next (`next?`), so the errands of a client settle all
that happens in it (`Office.Visit.next?`).

A bench that `Refines` the desk does at each turn nothing that can be seen there, or what is next.
So whatever the order of its tasks, a client finds there what the office shows (`Refines.leads`),
and gets through the errands that can be got through in the office (`Refines.getsThrough`). Two
benches that both refine the desk are never further apart than one being behind the other.

The names are those of the picture: a `Desk` is the bare loop, seen from outside, with its line,
what it has in hand, its ledger and its log; an `Office` is a desk at a moment, with somebody at it
who may be asleep; an `Office.Visit` is a client there. All of it is deterministic and has no
scheduler, so two loops are compared by comparing each of them with a desk. The log decides how long
this works: `Fair` stands for what is asked of it, `Willing` where refusals spoil the comparison,
`Clean` where keys that come twice do as well.
-/

namespace ControlLoop

/-- Does the notice say that a trigger was refused? -/
def Notice.isRefusal : Notice → Bool
  | refused _ => true
  | accepted .. | delivered .. | began _ | delayed .. | released _ | recorded _ => false

/-- No log tells of a trigger that was refused. -/
def Willing (log : Pool.Log) : Prop := ∀ e ∈ log, e.2.isRefusal = false

/-- A log of a loop that took every trigger, and no key twice. A pool may fold a key that comes
twice into one attempt, which a desk never does. -/
structure Clean (log : Pool.Log) : Prop where
  /-- nobody was refused -/
  willing : Willing log
  /-- no key was accepted twice -/
  once : ((Pool.acceptedIn log).map Prod.fst).Nodup

instance (log : Pool.Log) : Decidable (Willing log) := inferInstanceAs (Decidable (∀ e ∈ log, e.2.isRefusal = false))

variable {old new : Pool.Log}

theorem Willing.of_suffix (h : Willing new) (hs : old <:+ new) : Willing old := fun e he => h e (hs.subset he)

theorem Willing.not_refused {t : Moment} {key : Key} : ¬Willing ((t, .refused key) :: old) := fun h =>
  Bool.noConfusion (h (t, .refused key) List.mem_cons_self)

namespace Clean

theorem of_suffix (h : Clean new) (hs : old <:+ new) : Clean old where
  willing := h.willing.of_suffix hs
  once := h.once.sublist ((hs.sublist.filterMap _).map _)

/-- No key has been accepted twice. -/
theorem nodup_reverse (h : Clean old) : ((Pool.acceptedIn old.reverse).map Prod.fst).Nodup := by
  rw [Pool.acceptedIn, List.filterMap_reverse, List.map_reverse]
  exact List.nodup_reverse.mpr h.once

end Clean

/-- What is in hand at a desk. -/
inductive Desk.Hand where
  /-- nobody is at the desk yet -/
  | absent
  /-- nothing -/
  | free
  /-- a trigger has been taken -/
  | holding (key : Key) (kind : Trigger)
  /-- the handler is run -/
  | handling (attempt : Attempt)
  /-- the outcome is known -/
  | settled (attempt : Attempt) (duration : Span) (outcome : Outcome)

/-- A desk at which triggers are worked off, one after the other: what can be seen of a loop from
outside. It has no tasks, so no order in which they run. -/
structure Desk (ω : Type) where
  /-- the triggers not handled yet, oldest first -/
  line : List (Key × Trigger) := []
  /-- what is in hand -/
  hand : Desk.Hand := .absent
  /-- the newest records -/
  ledger : Ledger
  /-- how many records have been made -/
  recordCount : Nat := 0
  /-- has the signal to stop been given? -/
  stopRequested : Bool := false
  /-- what surrounds the desk -/
  flight : Flight ω

/-- A desk at some moment, with a handler that may be asleep until an alarm. -/
structure Office (ω : Type) where
  /-- the desk -/
  desk : Desk ω
  /-- the moment -/
  now : Moment := 0
  /-- when the handler wakes up, if it sleeps -/
  asleep : Option Moment := none

variable {ω : Type}

namespace Flight

/-- A handler that sleeps sleeps for some time, so that its alarm lies ahead when it is set. -/
theorem now_lt_of_move (f : Flight ω) (now : Moment) (i : Nat) (moment : Moment)
    (h : (f.move now i).1 = .sleepUntil moment) : now < moment := by
  simp only [move] at h
  cases hdeeds : (f.plan i).deeds with
  | nil => simp [hdeeds] at h
  | cons deed deeds =>
    cases deed with
    | trigger key kind => simp [hdeeds] at h
    | advanceClock span => simp [hdeeds] at h
    | sleep span =>
      simp only [hdeeds] at h
      split at h
      · cases h
      · next hspan =>
        cases h
        have hpos : 0 < (min span Bench.longestSleep).nanos := by
          rw [Span.nanos_min]
          exact Nat.lt_min.mpr ⟨Nat.pos_of_ne_zero hspan, by decide⟩
        exact Nat.lt_add_of_pos_right hpos

end Flight

namespace Desk

/-- How far a loop has come when nothing is left to do at its desk. -/
def restPhase (d : Desk ω) : Phase :=
  match d.hand with
  | .absent => .idle
  | .free => if d.stopRequested then .stopped else .running
  | .holding .. | .handling _ | .settled .. => .running

/-- What a request does. -/
def ask (d : Desk ω) (now : Moment) : Request → Desk ω
  | .run =>
    match d.hand with
    | .absent => { d with hand := .free }
    | _ => d
  | .stop => { d with stopRequested := true }
  | .trigger key kind =>
    { d with line := d.line ++ [(key, kind)], flight := d.flight.note now [.accepted key kind] }
  | .advanceClock span => { d with flight := { d.flight with wall := d.flight.wall.advance span } }

end Desk

/-- What a request does at once to how far a loop has come. -/
def Phase.ask (p : Phase) : Request → Phase
  | .run => if p = .idle then .running else p
  | .stop | .trigger .. | .advanceClock _ => p

namespace Office

/-- The handler makes a move. -/
def moved (o : Office ω) (a : Attempt) (flight : Flight ω) : Move → Office ω
  | .trigger key kind =>
    { o with
      desk.line := o.desk.line ++ [(key, kind)]
      desk.flight := flight.note o.now [.accepted key kind] }
  | .sleepUntil moment => { o with desk.flight := flight, asleep := some moment }
  | .goOn => { o with desk.flight := flight }
  | .finish result =>
    { o with desk.flight := flight, desk.hand := .settled a (a.elapsed o.now) (Serial.outcome result) }

/-- The handler moves on. -/
def handle (o : Office ω) (a : Attempt) : Office ω :=
  let (move, flight) := o.desk.flight.move o.now 0
  o.moved a flight move

/-- What is done next, if anything can be done at this moment. -/
def next? (handler : Handler ω) (o : Office ω) : Option (Office ω) :=
  match o.desk.hand with
  | .absent => none
  | .free =>
    match o.desk.line with
    | [] => none
    | (key, kind) :: line =>
      some { o with
        desk.line := line
        desk.hand := .holding key kind
        desk.flight := o.desk.flight.note o.now [.delivered key kind] }
  | .holding key kind =>
    some { o with
      desk.hand := .handling ⟨key, kind, 0, o.desk.flight.wall, o.now⟩
      desk.flight := (o.desk.flight.note o.now [.began key]).call handler 0 key }
  | .handling a => if o.asleep.isSome then none else some (o.handle a)
  | .settled a duration outcome =>
    let r := a.record (Uuid.ofAttempt o.desk.recordCount) duration outcome
    some { o with
      desk.hand := .free
      desk.ledger := o.desk.ledger.record r
      desk.recordCount := o.desk.recordCount + 1
      desk.flight := o.desk.flight.note o.now [.recorded r] }

/-- Nothing is struck from the log: each thing that is done at a desk puts a notice before the
others, or none. -/
theorem log_next? {handler : Handler ω} {o p : Office ω} (h : o.next? handler = some p) :
    o.desk.flight.log <:+ p.desk.flight.log := by
  unfold next? at h
  split at h
  · cases h
  · split at h
    · cases h
    · cases h
      exact Flight.log_suffix_note ..
  · cases h
    exact Flight.log_suffix_note ..
  · next a _ =>
    split at h
    · cases h
    · cases h
      have hlog := o.desk.flight.log_move o.now 0
      unfold handle
      generalize o.desk.flight.move o.now 0 = moved at hlog ⊢
      obtain ⟨move, flight⟩ := moved
      rw [← hlog]
      cases move with
      | trigger => exact Flight.log_suffix_note ..
      | sleepUntil | goOn | finish => exact List.suffix_rfl
  · cases h
    exact Flight.log_suffix_note ..

/-- A client in an office. -/
structure Visit (ω : Type) where
  /-- the office -/
  office : Office ω
  /-- how far the loop had come when the client last looked -/
  phase : Phase
  /-- until when the client lets time pass, if it does so -/
  waits : Option Moment := none
  /-- what the client still has to do -/
  errands : List Errand

namespace Visit

/-- What happens next, until the client has run all its errands. -/
def next? (handler : Handler ω) (v : Visit ω) : Option (Visit ω) :=
  match v.waits, v.errands with
  | none, [] => none
  | none, .ask request :: errands =>
    some { v with
      office.desk := v.office.desk.ask v.office.now request
      phase := v.phase.ask request
      errands }
  | none, .wait span :: errands => some { v with waits := some (v.office.now + span.nanos), errands }
  | some target, _ =>
    match v.office.next? handler with
    | some office => some { v with office }
    | none =>
      match v.office.asleep.filter fun moment => v.office.now < moment ∧ moment ≤ target with
      | some moment => some { v with office.now := moment, office.asleep := none }
      | none => some { v with office.now := max v.office.now target, phase := v.office.desk.restPhase, waits := none }

/-- Nothing happens any more only when the client has done. -/
theorem next?_eq_none_iff {handler : Handler ω} {v : Visit ω} :
    v.next? handler = none ↔ v.waits = none ∧ v.errands = [] := by
  constructor
  · intro h
    unfold next? at h
    split at h
    · next hwaits herrands => exact ⟨hwaits, herrands⟩
    · cases h
    · cases h
    · split at h
      · cases h
      · split at h <;> cases h
  · rintro ⟨hwaits, herrands⟩
    simp only [next?, hwaits, herrands]

/-- What may have happened after a while. -/
abbrev Leads (handler : Handler ω) : Visit ω → Visit ω → Prop := StateTransition.Reaches (next? handler)

variable {handler : Handler ω} {v w : Visit ω}

theorem log_ask (d : Desk ω) (now : Moment) (request : Request) : d.flight.log <:+ (d.ask now request).flight.log := by
  cases request with
  | run =>
    simp only [Desk.ask]
    split <;> exact List.suffix_rfl
  | trigger => exact Flight.log_suffix_note ..
  | stop | advanceClock => exact List.suffix_rfl

/-- Nothing is struck from the log by whatever happens next. -/
theorem log_of_next? (h : v.next? handler = some w) : v.office.desk.flight.log <:+ w.office.desk.flight.log := by
  unfold next? at h
  split at h
  · cases h
  · cases h
    exact log_ask ..
  · cases h
    exact List.suffix_rfl
  · split at h
    · next hnext =>
      cases h
      exact Office.log_next? hnext
    · split at h <;> cases h <;> exact List.suffix_rfl

theorem Leads.log (h : Leads handler v w) : v.office.desk.flight.log <:+ w.office.desk.flight.log := by
  induction h with
  | refl => exact List.suffix_rfl
  | tail _ hnext ih => exact ih.trans (log_of_next? hnext)

/-- A client that acts has one errand less after that, and never more. -/
theorem errands_of_next? (h : v.next? handler = some w) :
    w.errands.length ≤ v.errands.length ∧ (v.waits = none → w.errands.length < v.errands.length) := by
  unfold next? at h
  split at h
  · cases h
  · next herrands =>
    cases h
    simp [herrands]
  · next herrands =>
    cases h
    simp [herrands]
  · next target hwaits =>
    split at h
    · cases h
      simp [hwaits]
    · split at h <;> cases h <;> simp [hwaits]

/-- Whatever has happened so far leads to where nothing happens any more: there is one thing at most
that happens next, so two ways from one visit are one way and its continuation. -/
theorem Leads.leads_of_done {u : Visit ω} (h : Leads handler u w) (hdone : w.next? handler = none)
    (hv : Leads handler u v) : Leads handler v w := by
  have heval : w ∈ StateTransition.eval (next? handler) v := by
    rw [← StateTransition.reaches_eval hv, StateTransition.mem_eval]
    exact ⟨h, hdone⟩
  exact (StateTransition.mem_eval.mp heval).1

theorem Leads.errands (h : Leads handler v w) : w.errands.length ≤ v.errands.length := by
  induction h with
  | refl => exact Nat.le_refl _
  | tail _ hnext ih => exact (errands_of_next? hnext).1.trans ih

/-- A client that acts with the same errands left acts at the same moment. -/
theorem Leads.eq_of_errands (h : Leads handler v w) (hv : v.waits = none) (he : w.errands = v.errands) : v = w := by
  cases Relation.ReflTransGen.cases_head h with
  | inl heq => exact heq
  | inr hstep =>
    obtain ⟨u, hnext, hleads⟩ := hstep
    have hfewer := (errands_of_next? hnext).2 hv
    have hleft : w.errands.length ≤ u.errands.length := Leads.errands hleads
    rw [he] at hleft
    omega

end Visit

end Office

/-! ## Benches that do what a desk does

`Refines` asks for one turn and one request what `leads` and `getsThrough` then give for all that a
client does. Its rank has two parts, since a turn of a task that has nothing to do changes nothing
but the line of the tasks, while other turns may put tasks into that line. -/

namespace Bench

variable {σ τ : Type} [DecidableEq τ] {m : Machine σ τ}

/-- The office that is seen in a bench; its handler sleeps until the first alarm. -/
def office (view : σ → Desk ω) (b : Bench m) : Office ω :=
  { desk := view b.state, now := b.now, asleep := b.alarms.head?.map Prod.fst }

/-- Nothing has changed that can be seen at the desk, and less is left to do that can not be seen
there. -/
structure Unseen (view : σ → Desk ω) (rank : Bench m → Nat × Nat) (b c : Bench m) : Prop where
  /-- the office is the same -/
  office : c.office view = b.office view
  /-- less is left to do -/
  rank : Prod.Lex (· < ·) (· < ·) (rank c) (rank b)

/-- What was next in the office has happened, or nothing that can be seen there. -/
def Follows (handler : Handler ω) (view : σ → Desk ω) (rank : Bench m → Nat × Nat) (b c : Bench m) : Prop :=
  Unseen view rank b c ∨ (b.office view).next? handler = some (c.office view)

/-- A bench does what a desk does, as long as its log is a fair one. `Inv` is what the bench keeps,
`view` the desk that is seen in it, and `rank` counts what is left to do that can not be seen
there. -/
structure Refines (handler : Handler ω) (ask : Bench m → Request → Bench m) (view : σ → Desk ω) (phase : σ → Phase)
    (Fair : Pool.Log → Prop) (Inv : Bench m → Prop) (rank : Bench m → Nat × Nat) : Prop where
  /-- what was fair in the end was so all the time -/
  fair : ∀ {old new}, Fair new → old <:+ new → Fair old
  /-- nothing is struck from the log by a turn -/
  grows : ∀ now task s, (view s).flight.log <:+ (view (m.step now task s).state).flight.log
  /-- nothing is struck from the log by a request -/
  grows_ask : ∀ b request, (view b.state).flight.log <:+ (view (ask b request).state).flight.log
  /-- at each turn happens what is next, or nothing that can be seen, which can not go on for
  ever -/
  turn : ∀ {b task}, Inv b → task ∈ b.ready → Fair (view (b.turn task).state).flight.log →
    Inv (b.turn task) ∧ Follows handler view rank b (b.turn task)
  /-- when no task is left nothing is left to do -/
  rest : ∀ {b}, Inv b → b.ready = [] →
    (b.office view).next? handler = none ∧ phase b.state = (view b.state).restPhase
  /-- time may pass -/
  still : ∀ {b target}, Inv b → b.ready = [] →
    (∀ alarm ∈ b.alarms.head?, ¬(b.now < alarm.1 ∧ alarm.1 ≤ target)) → Inv { b with now := max b.now target }
  /-- the first alarm is the only one -/
  wake : ∀ {b alarm}, Inv b → b.ready = [] → alarm ∈ b.alarms.head? →
    Inv (b.jump alarm.1) ∧ (b.jump alarm.1).alarms = []
  /-- requests do what they do at the desk -/
  ask : ∀ {b request}, Inv b → Fair (view (ask b request).state).flight.log →
    Inv (ask b request) ∧
      (ask b request).office view = { b.office view with desk := (view b.state).ask b.now request } ∧
      phase (ask b request).state = (phase b.state).ask request

namespace Refines

variable {handler : Handler ω} {ask : Bench m → Request → Bench m} {view : σ → Desk ω} {phase : σ → Phase}
  {Fair : Pool.Log → Prop} {Inv : Bench m → Prop} {rank : Bench m → Nat × Nat} {v v' : Visit m}
  {w e : Office.Visit ω}

/-- A client at the bench sees what a client in the office sees, but how far the loop has come only
when it looks. -/
structure Seen (view : σ → Desk ω) (phase : σ → Phase) (Inv : Bench m → Prop) (v : Visit m) (w : Office.Visit ω) :
    Prop where
  /-- what always holds of the bench -/
  inv : Inv v.bench
  /-- the office -/
  office : w.office = v.bench.office view
  /-- how far the loop has come -/
  phase : v.waits = none → w.phase = phase v.bench.state
  /-- until when the client waits -/
  waits : w.waits = v.waits
  /-- what it has to do -/
  errands : w.errands = v.errands

/-- Nothing changes that a client in the office could see, or what is next happens there. The cases
are those of `Visit.Step`: a turn of a task is what `Refines.turn` says it is; a request does to the
bench what it does to the desk; and when nobody has anything left to do, time jumps in both to the
same moment. -/
theorem step (h : Refines handler ask view phase Fair Inv rank) (hs : Visit.Step ask v v')
    (hfair : Fair (view v'.bench.state).flight.log) (hv : Seen view phase Inv v w) :
    Seen view phase Inv v' w ∧ Prod.Lex (· < ·) (· < ·) (rank v'.bench) (rank v.bench) ∨
      ∃ w', w.next? handler = some w' ∧ Seen view phase Inv v' w' := by
  obtain ⟨office, ph, waits, errands⟩ := w
  obtain ⟨hinv, hoffice, hphase, hwaits, herrands⟩ := hv
  obtain rfl : office = _ := hoffice
  obtain rfl : waits = _ := hwaits
  obtain rfl : errands = _ := herrands
  cases hs with
  | @ask b request errands =>
    obtain ⟨hinv', hask, hphase'⟩ := h.ask hinv hfair
    obtain rfl : ph = _ := hphase rfl
    exact .inr ⟨_, rfl, hinv', hask.symm, fun _ => hphase'.symm, rfl, rfl⟩
  | wait => exact .inr ⟨_, rfl, hinv, rfl, nofun, rfl, rfl⟩
  | @turn b task target errands hmem =>
    obtain ⟨hinv', hturn⟩ := h.turn hinv hmem hfair
    rcases hturn with ⟨hsame, hrank⟩ | hnext
    · exact .inl ⟨⟨hinv', hsame.symm, nofun, rfl, rfl⟩, hrank⟩
    · refine .inr ⟨⟨(b.turn task).office view, ph, some target, errands⟩, ?_, hinv', rfl, nofun, rfl, rfl⟩
      simp only [Office.Visit.next?, hnext]
  | @wake b alarm target errands hr ha hdue =>
    obtain ⟨hnone, -⟩ := h.rest hinv hr
    obtain ⟨hinv', halarms⟩ := h.wake hinv hr ha
    have hoffice : (b.jump alarm.1).office view = { b.office view with now := alarm.1, asleep := none } := by
      rw [Bench.office, halarms]
      rfl
    have hasleep : (b.office view).asleep.filter
        (fun moment => (b.office view).now < moment ∧ moment ≤ target) = some alarm.1 := by
      rw [Option.filter_eq_some_iff]
      exact ⟨Option.mem_map.mpr ⟨alarm, ha, rfl⟩, decide_eq_true hdue⟩
    refine .inr ⟨⟨(b.jump alarm.1).office view, ph, some target, errands⟩, ?_, hinv', rfl, nofun, rfl, rfl⟩
    rw [hoffice]
    simp only [Office.Visit.next?, hnone, hasleep]
  | @still b target errands hr hlate =>
    obtain ⟨hnone, hrest⟩ := h.rest hinv hr
    have hasleep : (b.office view).asleep.filter
        (fun moment => (b.office view).now < moment ∧ moment ≤ target) = none := by
      rw [Option.filter_eq_none_iff]
      intro moment hmoment
      obtain ⟨alarm, halarm, rfl⟩ := Option.mem_map.mp hmoment
      exact mt of_decide_eq_true (hlate alarm halarm)
    refine .inr ⟨⟨{ b.office view with now := max b.now target }, (view b.state).restPhase, none, errands⟩, ?_,
      h.still hinv hr hlate, rfl, fun _ => hrest.symm, rfl, rfl⟩
    simp only [Office.Visit.next?, hnone, hasleep]
    rfl

theorem log_step (h : Refines handler ask view phase Fair Inv rank) (hs : Visit.Step ask v v') :
    (view v.bench.state).flight.log <:+ (view v'.bench.state).flight.log := by
  cases hs with
  | ask => exact h.grows_ask ..
  | turn => exact h.grows ..
  | wait | wake | still => exact List.suffix_rfl

/-- What a client at the bench comes to see, a client in the office comes to see. By induction on
what happens at the bench: a step that can not be seen leaves the office where it is. -/
theorem leads (h : Refines handler ask view phase Fair Inv rank) (hl : Visit.Leads ask v v')
    (hfair : Fair (view v'.bench.state).flight.log) (hv : Seen view phase Inv v w) :
    ∃ w', Office.Visit.Leads handler w w' ∧ Seen view phase Inv v' w' := by
  induction hl with
  | refl => exact ⟨w, .refl, hv⟩
  | tail _ hs ih =>
    obtain ⟨w₁, hleads, hseen⟩ := ih (h.fair hfair (h.log_step hs))
    rcases h.step hs hfair hseen with ⟨hseen', -⟩ | ⟨w₂, hnext, hseen'⟩
    · exact ⟨w₁, hleads, hseen'⟩
    · exact ⟨w₂, hleads.tail hnext, hseen'⟩

/-- A client who gets through its errands in the office gets through them at the bench. The
induction is on what is left to happen in the office, and within that on the rank of the bench,
which goes down with all that can not be seen there. -/
theorem getsThrough (h : Refines handler ask view phase Fair Inv rank) (hl : Office.Visit.Leads handler w e)
    (he : e.next? handler = none) (hv : Seen view phase Inv v w) :
    v.GetsThrough ask fun s => Fair (view s).flight.log := by
  -- what is left to happen in the office is counted down first, then what can not be seen there
  induction hl using Relation.ReflTransGen.head_induction_on generalizing v with
  | refl =>
    obtain ⟨hwaits, herrands⟩ := Office.Visit.next?_eq_none_iff.mp he
    obtain ⟨b, waits, errands⟩ := v
    obtain rfl : none = waits := hwaits.symm.trans hv.waits
    obtain rfl : [] = errands := herrands.symm.trans hv.errands
    exact .done
  | head hnext _ ih =>
    have hwf : WellFounded (Prod.Lex (· < ·) (· < ·) : Nat × Nat → Nat × Nat → Prop) :=
      (Prod.instWellFoundedRelation).wf
    induction hr : rank v.bench using hwf.induction generalizing v with
    | _ r ihr =>
      rcases v.done_or_step ask with ⟨hwaits, herrands⟩ | ⟨v₁, hs₁⟩
      · obtain ⟨b, waits, errands⟩ := v
        obtain rfl : waits = none := hwaits
        obtain rfl : errands = [] := herrands
        exact .done
      · refine .goesOn hs₁ fun v' hs hfair => ?_
        rcases h.step hs hfair hv with ⟨hseen, hlt⟩ | ⟨w', hnext', hseen⟩
        · exact ihr _ (hr ▸ hlt) hseen rfl
        · obtain rfl := Option.some.inj (hnext.symm.trans hnext')
          exact ih hseen

end Refines

end Bench

end ControlLoop
