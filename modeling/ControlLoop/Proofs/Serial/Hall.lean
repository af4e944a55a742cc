import ControlLoop.Proofs.Serial.Step
import ControlLoop.Proofs.Steps

/-!
# In the middle of a trigger

Whoever triggers a key of a serial loop looks at two flags, one after the other, and only then puts
the trigger in the line. The worker stops in two steps likewise: it raises a flag, and closes the
line after that. Others may come in between: somebody who found the loop willing may find the line
closed, or may still get into the line of a loop that refuses everybody who comes.

A `Hall` is a serial loop together with those who are in the middle of a trigger, the handler among
them if it triggers a key of its own loop. Its moves are the single steps. Done without a break they
come to what the loop makes of the whole (`trigger_in_one_go`, `act_in_one_go`).

In the terms of a `OneWorkerSyncer` the first flag is the one that the worker sets when the signal
to stop has reached it, the second is the state of the loop, the line is the channel of triggers,
and the two steps of the worker are setting the flag and closing the receiver. `trigger` may be
called by any task between the two, and by the handler.
-/

namespace ControlLoop.Serial

/-- How far somebody has come who triggers a key. -/
inductive Approach where
  /-- about to look whether the worker has seen the signal to stop -/
  | coming
  /-- about to look whether the loop is stopped -/
  | looking
  /-- about to put the trigger in the line -/
  | entering
  deriving DecidableEq

/-- Somebody who triggers a key. -/
structure Caller where
  /-- they are given tickets in the order in which they come -/
  ticket : Nat
  /-- the key -/
  key : Key
  /-- the kind -/
  kind : Trigger
  /-- how far it has come -/
  approach : Approach := .coming
  deriving DecidableEq

/-- A serial loop, and those who are in the middle of a trigger: a hall with a line in front of the
one worker, where everybody who comes has a ticket. -/
structure Hall where
  /-- the loop -/
  serial : Serial
  /-- is the line closed? -/
  shut : Bool := false
  /-- how many have come -/
  tickets : Nat := 0
  /-- those who are in the middle of a trigger -/
  callers : List Caller := []

/-- A single step in a hall. -/
inductive Move where
  /-- somebody comes to trigger a key -/
  | come (key : Key) (kind : Trigger)
  /-- one of those who are in the middle of a trigger goes on -/
  | proceed (caller : Caller)
  /-- the worker closes the line -/
  | shut
  /-- anything else that happens to the loop -/
  | loop (a : Action)

/-- What an onlooker takes down. -/
inductive Event where
  /-- somebody has come -/
  | came (ticket : Nat)
  /-- a trigger was accepted -/
  | accepted (ticket : Nat) (key : Key) (kind : Trigger)
  /-- a trigger was refused -/
  | refused (ticket : Nat) (key : Key)
  /-- something else has happened to the loop -/
  | noticed (n : Notice)
  deriving DecidableEq

/-- What an onlooker takes down who does not see that somebody comes. -/
def Event.notice? : Event → Option Notice
  | .came _ => none
  | .accepted _ key kind => some (.accepted key kind)
  | .refused _ key => some (.refused key)
  | .noticed n => some n

namespace Hall

/-- A hall of a loop that has not run. -/
def opened (ledgerCapacity : Nat) : Hall := { serial := fresh ledgerCapacity }

/-- A caller goes on. Whoever is refused, or accepted, has done. -/
def proceed (h : Hall) (c : Caller) : Hall × List Event :=
  let others := h.callers.erase c
  let refused := ({ h with callers := others }, [Event.refused c.ticket c.key])
  match c.approach with
  | .coming =>
    if h.serial.stopping then refused
    else ({ h with callers := { c with approach := .looking } :: others }, [])
  | .looking =>
    if h.serial.phase = .stopped then refused
    else ({ h with callers := { c with approach := .entering } :: others }, [])
  | .entering =>
    if h.shut then refused
    else
      ({ h with serial.line := h.serial.line ++ [(c.key, c.kind)], callers := others },
        [.accepted c.ticket c.key c.kind])

/-- The worker has seen the signal to stop, and is about to close the line. -/
def Closing (h : Hall) : Prop := h.serial.stopping = true ∧ h.shut = false

instance (h : Hall) : Decidable h.Closing :=
  inferInstanceAs (Decidable (h.serial.stopping = true ∧ h.shut = false))

/-- Makes a move, if it is possible. Triggers come through callers, and the worker does nothing else
before it has closed the line. -/
def act (h : Hall) (move : Clocks × Move) : Option (Hall × List Event) :=
  match move.2 with
  | .come key kind =>
    some ({ h with tickets := h.tickets + 1, callers := ⟨h.tickets, key, kind, .coming⟩ :: h.callers },
      [.came h.tickets])
  | .proceed c => if c ∈ h.callers then some (h.proceed c) else none
  | .shut => if h.Closing then some ({ h with shut := true }, []) else none
  | .loop (.trigger ..) => none
  | .loop .work =>
    if h.Closing then none
    else (h.serial.act move.1 .work).map fun (serial, notices) => ({ h with serial }, notices.map .noticed)
  | .loop a => (h.serial.act move.1 a).map fun (serial, notices) => ({ h with serial }, notices.map .noticed)

/-- The outcomes of a move. -/
inductive Turn (clocks : Clocks) (h : Hall) : Move → Hall → List Event → Prop where
  | came {key kind} :
    Turn clocks h (.come key kind)
      { h with tickets := h.tickets + 1, callers := ⟨h.tickets, key, kind, .coming⟩ :: h.callers } [.came h.tickets]
  | wentOn {c later} (hc : c ∈ h.callers)
      (ha : c.approach = .coming ∧ h.serial.stopping = false ∨ c.approach = .looking ∧ h.serial.phase ≠ .stopped) :
    Turn clocks h (.proceed c) { h with callers := { c with approach := later } :: h.callers.erase c } []
  | turnedAway {c} (hc : c ∈ h.callers)
      (hs : h.serial.stopping = true ∨ h.serial.phase = .stopped ∨ h.shut = true) :
    Turn clocks h (.proceed c) { h with callers := h.callers.erase c } [.refused c.ticket c.key]
  | letIn {c} (hc : c ∈ h.callers) (ha : c.approach = .entering) (ho : h.shut = false) :
    Turn clocks h (.proceed c)
      { h with serial.line := h.serial.line ++ [(c.key, c.kind)], callers := h.callers.erase c }
      [.accepted c.ticket c.key c.kind]
  | shut (hc : h.Closing) : Turn clocks h .shut { h with shut := true } []
  | loop {a serial notices} (ht : ∀ key kind, a ≠ .trigger key kind) (hc : a = .work → ¬h.Closing)
      (hs : Step clocks h.serial a serial notices) :
    Turn clocks h (.loop a) { h with serial } (notices.map .noticed)

variable {clocks : Clocks} {h h' : Hall} {m : Move} {new : List Event}

/-- A caller that goes on finds a flag set and is turned away, or comes one step further, or is let
in. -/
theorem turn_of_proceed {c : Caller} (hc : c ∈ h.callers) (hp : h.proceed c = (h', new)) :
    Turn clocks h (.proceed c) h' new := by
  unfold proceed at hp
  split at hp
  · next ha =>
    split at hp
    · next hs =>
      cases hp
      exact .turnedAway hc (.inl hs)
    · next hs =>
      cases hp
      exact .wentOn hc (.inl ⟨ha, Bool.eq_false_iff.mpr hs⟩)
  · next ha =>
    split at hp
    · next hs =>
      cases hp
      exact .turnedAway hc (.inr (.inl hs))
    · next hs =>
      cases hp
      exact .wentOn hc (.inr ⟨ha, hs⟩)
  · next ha =>
    split at hp
    · next hs =>
      cases hp
      exact .turnedAway hc (.inr (.inr hs))
    · next hs =>
      cases hp
      exact .letIn hc ha (Bool.eq_false_iff.mpr hs)

/-- What else happens to a loop is a step of it, with the notices that it gives. -/
theorem turn_of_loop {a : Action} (ht : ∀ key kind, a ≠ .trigger key kind) (hc : a = .work → ¬h.Closing)
    (hloop : (h.serial.act clocks a).map (fun change => ({ h with serial := change.1 }, change.2.map .noticed)) =
      some (h', new)) : Turn clocks h (.loop a) h' new := by
  obtain ⟨⟨serial, notices⟩, hact, hchange⟩ := Option.map_eq_some_iff.mp hloop
  obtain ⟨rfl, rfl⟩ := Prod.mk.inj hchange
  exact .loop ht hc (step_of_act hact)

/-- Every move has one of the outcomes. From here on the proofs go by the cases of `Turn`, and by
those of `Step` for what happens to the loop itself. -/
theorem turn_of_act (hact : h.act (clocks, m) = some (h', new)) : Turn clocks h m h' new := by
  cases m with
  | come key kind =>
    cases hact
    exact .came
  | proceed c =>
    simp only [act] at hact
    split at hact
    · next hc => exact turn_of_proceed hc (Option.some.inj hact)
    · cases hact
  | shut =>
    simp only [act] at hact
    split at hact
    · next hc =>
      cases hact
      exact .shut hc
    · cases hact
  | loop a =>
    cases a with
    | trigger => cases hact
    | work =>
      simp only [act] at hact
      split at hact
      · cases hact
      · next hc => exact turn_of_loop (by simp) (fun _ => hc) hact
    | run | stop | finish => exact turn_of_loop (by simp) (by simp) hact

/-! ## In one go

What a loop does in one step is taken apart into moves here, which are then made without a break. So
the steps of `Serial.act` are among the runs of a hall, and what holds of all of these holds of
them. -/

/-- A loop that nobody is triggering. -/
def of (s : Serial) (tickets : Nat) : Hall := { serial := s, shut := s.stopping, tickets }

/-- Single steps that are taken while the clocks show the same. -/
def InOneGo (clocks : Clocks) (h : Hall) (new : List Event) (h' : Hall) : Prop :=
  ∃ moves : List Move, takeSteps act h (moves.map (clocks, ·)) = some (h', new)

/-- To come, to look at both flags and to be let in or turned away is what the loop makes of a
trigger: `Serial.trigger` is one way for the moves to come one after the other. -/
theorem trigger_in_one_go (clocks : Clocks) (s : Serial) (tickets : Nat) (key : Key) (kind : Trigger) :
    InOneGo clocks (of s tickets)
      [.came tickets, if (s.trigger key kind).1 then .accepted tickets key kind else .refused tickets key]
      (of (s.trigger key kind).2 (tickets + 1)) := by
  let c : Caller := ⟨tickets, key, kind, .coming⟩
  by_cases hs : s.stopping = true
  · refine ⟨[.come key kind, .proceed c], ?_⟩
    simp [takeSteps, act, proceed, of, trigger, hs, c]
  · by_cases hp : s.phase = .stopped
    · refine ⟨[.come key kind, .proceed c, .proceed { c with approach := .looking }], ?_⟩
      simp [takeSteps, act, proceed, of, trigger, hs, hp, c]
    · refine ⟨[.come key kind, .proceed c, .proceed { c with approach := .looking },
        .proceed { c with approach := .entering }], ?_⟩
      simp [takeSteps, act, proceed, of, trigger, hs, hp, c]

/-- Where nobody is in the middle of anything the worker has closed the line, or has no reason
to. -/
theorem not_closing_of (s : Serial) (tickets : Nat) : ¬(of s tickets).Closing := by
  rintro ⟨hs, ho⟩
  cases hs.symm.trans ho

/-- What else happens to a loop is a single step, unless the worker sees the signal to stop. -/
theorem loop_in_one_go {s s' : Serial} {a : Action} {notices : List Notice} (ht : ∀ key kind, a ≠ .trigger key kind)
    (hact : s.act clocks a = some (s', notices)) (hs : s'.stopping = s.stopping) (tickets : Nat) :
    InOneGo clocks (of s tickets) (notices.map .noticed) (of s' tickets) := by
  have hloop : (of s tickets).act (clocks, .loop a) = some (of s' tickets, notices.map .noticed) := by
    have hchange : (s.act clocks a).map (fun change => ({ of s tickets with serial := change.1 },
        change.2.map Event.noticed)) = some (of s' tickets, notices.map .noticed) := by
      rw [hact, of, of, hs]
      rfl
    cases a with
    | trigger key kind => exact absurd rfl (ht key kind)
    | work => exact (if_neg (not_closing_of s tickets)).trans hchange
    | run | stop | finish => exact hchange
  exact ⟨[.loop a], takeSteps_cons_eq_some.mpr ⟨_, _, [], hloop, rfl, (List.append_nil _).symm⟩⟩

/-- Single steps come to every step of the loop. -/
theorem act_in_one_go {s s' : Serial} {a : Action} {notices : List Notice} (hact : s.act clocks a = some (s', notices))
    (tickets : Nat) :
    ∃ later new, InOneGo clocks (of s tickets) new (of s' later) ∧ new.filterMap Event.notice? = notices := by
  have hnoticed : (notices.map Event.noticed).filterMap Event.notice? = notices := by
    simp [List.filterMap_map, Function.comp_def, Event.notice?]
  cases step_of_act hact with
  | @accepted key kind ho hp =>
    have htrigger := trigger_in_one_go clocks s tickets key kind
    have hopen : ¬(s.stopping = true ∨ s.phase = .stopped) := by simp [ho, hp]
    rw [trigger, if_neg hopen] at htrigger
    exact ⟨tickets + 1, _, htrigger, rfl⟩
  | @refused key kind hc =>
    have htrigger := trigger_in_one_go clocks s tickets key kind
    rw [trigger, if_pos hc] at htrigger
    exact ⟨tickets + 1, _, htrigger, rfl⟩
  | heard hw hr ho =>
    refine ⟨tickets, [], ⟨[.loop .work, .shut], ?_⟩, rfl⟩
    simp [takeSteps, act, of, Closing, Serial.act, work, ask, hw, hr, ho]
  | started | stopRequested | took | ended | began | settled | recorded =>
    exact ⟨tickets, _, loop_in_one_go (by simp) hact rfl tickets, hnoticed⟩

end Hall

end ControlLoop.Serial
