import ControlLoop.Bench.Serial
import ControlLoop.Proofs.Bench.Desk
import ControlLoop.Proofs.Serial.Step

/-!
# A serial loop is a desk

A serial loop on the bench refines the desk (`SerialBench.refines`). What can not be seen at the
desk is that the worker looks for the signal to stop, and that it ends.

`Manned` is what carries the proof: the only task stands in the line unless there is nothing to do
for it, and the only alarm is that of a handler that sleeps.

For each thing that the worker does there is one lemma that says what becomes of `Manned` and what
is seen of it (`Manned.turn_wait`, `Manned.turn_handling`, `Manned.turn_work`), and likewise for
what a client asks (`Manned.ask_run`, `Manned.ask`) and for time that passes (`Manned.still`,
`Manned.wake`). `Bench.Refines` asks for just these.
-/

namespace ControlLoop

namespace Serial

/-- What is in hand. A worker that has ended holds nothing. -/
def Stage.hand : Stage → Desk.Hand
  | absent => .absent
  | asking | finished => .free
  | holding key kind => .holding key kind
  | handling a => .handling a
  | settled a duration outcome => .settled a duration outcome

/-- How far a loop has come whose worker stands at a stage. -/
def Stage.phase : Stage → Phase
  | absent => .idle
  | asking | holding .. | handling _ | settled .. => .running
  | finished => .stopped

/-- What every loop keeps. -/
structure Sound (s : Serial) : Prop where
  /-- the loop is as far as its worker -/
  phase : s.phase = s.worker.phase
  /-- the worker ends after the signal to stop, when no trigger is left -/
  ended : s.worker = .finished → s.line = [] ∧ s.stopRequested = true
  /-- the worker sees the signal to stop only if it was given -/
  heeds : s.stopping = true → s.stopRequested = true

/-- How many steps of the worker are left that can not be seen at the desk, if no more triggers
come. -/
def rank (s : Serial) : Nat := (if s.stopping then 0 else 1) + if s.worker = .asking then 1 else 0

/-- There is nothing to do for the worker. -/
def Waits (s : Serial) : Prop := s.worker = .absent ∨ s.worker = .finished ∨ s.worker = .asking ∧ s.ask = none

variable {clocks : Clocks} {s s' : Serial} {a : Action} {notices : List Notice}

theorem sound_fresh (capacity : Nat) : (fresh capacity).Sound := ⟨rfl, nofun, nofun⟩

/-- Every step keeps a loop sound. -/
theorem sound_of_act (h : s.Sound) (hact : s.act clocks a = some (s', notices)) : s'.Sound := by
  obtain ⟨hphase, hended, hheeds⟩ := h
  cases step_of_act hact with
  | accepted ho hp =>
    refine ⟨hphase, fun hf => ?_, hheeds⟩
    rw [hphase, hf] at hp
    exact absurd rfl hp
  | refused => exact ⟨hphase, hended, hheeds⟩
  | started => exact ⟨rfl, nofun, hheeds⟩
  | stopRequested => exact ⟨hphase, fun hf => ⟨(hended hf).1, rfl⟩, fun _ => rfl⟩
  | heard hw hr => exact ⟨hphase, hended, fun _ => hr⟩
  | ended hw hs hl => exact ⟨rfl, fun _ => ⟨hl, hheeds hs⟩, hheeds⟩
  | took hw | began hw | settled hw | recorded hw => exact ⟨hphase.trans (by rw [hw]; rfl), nofun, hheeds⟩

/-- A worker that asks and has nothing to do finds the line empty, and no signal. -/
theorem line_of_ask (ha : s.ask = none) : s.line = [] ∧ s.stopRequested = false := by
  unfold ask at ha
  split at ha
  · cases ha
  · next hheard =>
    split at ha
    · cases ha
    · next hline =>
      refine ⟨hline, Bool.eq_false_iff.mpr fun hr => ?_⟩
      have hs : ¬s.stopping = true := by
        intro hs
        rw [if_pos hs] at ha
        cases ha
      exact hheard ⟨hr, hs⟩

end Serial

namespace SerialBench

variable {ω : Type}

/-- The desk that is seen in a serial loop. -/
def State.desk (s : State ω) : Desk ω where
  line := s.serial.line
  hand := s.serial.worker.hand
  ledger := s.serial.ledger
  recordCount := s.serial.recordCount
  stopRequested := s.serial.stopRequested
  flight := s.flight

/-- How far the loop has come. -/
def State.phase (s : State ω) : Phase := s.serial.phase

/-- What a request does to the loop. -/
abbrev ask : SerialBench ω → Request → SerialBench ω := (rig ω).ask

/-- The worker is in the line unless there is nothing to do for it, or its handler sleeps. This is
what the bench keeps, and what makes a serial loop on it do what a desk does. -/
structure Manned (handler : Handler ω) (b : SerialBench ω) : Prop where
  /-- this handler is run -/
  handler : b.state.handler = handler
  /-- the loop is sound -/
  sound : b.state.serial.Sound
  /-- the worker is in the line once at most -/
  nodup : b.ready.Nodup
  /-- the only alarm is that of a handler that sleeps -/
  alarms : b.alarms = [] ∨
    ∃ t a, b.alarms = [(t, ())] ∧ b.now < t ∧ b.state.serial.worker = .handling a ∧ b.ready = []
  /-- the worker is in the line when there is something to do -/
  attends : b.alarms = [] → b.ready = [] → b.state.serial.Waits

/-- How many turns are left that can not be seen at the desk. -/
def rank (b : SerialBench ω) : Nat × Nat := (b.state.serial.rank, b.ready.length)

variable {handler : Handler ω} {b : SerialBench ω} {s : State ω} {started : List Unit} {a : Attempt}

namespace Manned

/-- The worker is the only task, so it is alone in the line. -/
theorem ready_eq (h : b.Manned handler) (hmem : () ∈ b.ready) : b.ready = [()] := by
  have hall : ∀ t ∈ b.ready, t = () := fun _ _ => rfl
  obtain ⟨n, hn⟩ : ∃ n, b.ready = List.replicate n () := ⟨_, List.eq_replicate_of_mem hall⟩
  have hnodup := h.nodup
  rw [hn, List.nodup_replicate] at hnodup
  rw [hn] at hmem ⊢
  obtain rfl : n = 1 := by
    have hne : n ≠ 0 := by
      rintro rfl
      cases hmem
    omega
  rfl

/-- A bench whose worker is in the line, or has nothing to do, after the state has changed. If there
is something to do for it, it is awake, so the bench puts it in the line. -/
theorem modify (hh : s.handler = handler) (hs : s.serial.Sound) (hn : b.ready.Nodup) (ha : b.alarms = [])
    (hw : () ∈ b.ready ∨ () ∈ started ∨ s.serial.worker.hand = .absent ∨ s.serial.worker.hand = .free) :
    Manned handler (b.modify s started) where
  handler := hh
  sound := hs
  nodup := Bench.nodup_join hn
  alarms := .inl ha
  attends _ hnone := by
    have hout : ∀ t, t ∉ b.ready ∧ t ∉ started ∧ t ∉ (machine ω).awake b.now s := by
      intro t
      rw [← not_or, ← not_or, ← Bench.mem_ready_modify, hnone]
      exact List.not_mem_nil
    obtain ⟨hready, hstarted, hawake⟩ := hout ()
    have hhand := (hw.resolve_left hready).resolve_left hstarted
    have hcalm : s.serial.worker = .asking → s.serial.ask = none := by
      intro hask
      rw [← Option.not_isSome_iff_eq_none]
      intro hsome
      refine hawake ?_
      have hwork : ((rig ω).act? b.now s .work).isSome := by
        rw [Rig.act?, Option.isSome_map]
        show (s.serial.act (s.flight.clocks b.now) .work).isSome = true
        rw [Serial.act, Serial.work, hask]
        exact hsome
      simp only [machine, State.awake, hask, hwork, if_true, List.mem_singleton]
    show s.serial.Waits
    cases hstage : s.serial.worker with
    | absent => exact .inl hstage
    | asking => exact .inr (.inr ⟨hstage, hcalm hstage⟩)
    | finished => exact .inr (.inl hstage)
    | holding | handling | settled =>
      rw [hstage] at hhand
      rcases hhand with hhand | hhand <;> cases hhand

/-- A bench whose handler sleeps. -/
theorem modify_asleep {t : Moment} (hh : s.handler = handler) (hs : s.serial.Sound) (hr : b.ready = [])
    (ha : b.alarms = [(t, ())]) (hlt : b.now < t) (hw : s.serial.worker = .handling a) :
    Manned handler (b.modify s []) := by
  have hready : (b.modify s []).ready = [] := by
    have hawake : (machine ω).awake b.now s = [] := by simp [machine, State.awake, hw]
    rw [Bench.modify, hr, hawake]
    rfl
  refine ⟨hh, hs, ?_, .inr ⟨t, a, ha, hlt, hw, hready⟩, fun hnone => ?_⟩
  · rw [hready]
    exact List.nodup_nil
  · cases ha.symm.trans hnone

theorem alarms_eq_nil (h : b.Manned handler) (hmem : () ∈ b.ready) : b.alarms = [] := by
  rcases h.alarms with hnone | ⟨t, a, -, -, -, hready⟩
  · exact hnone
  · rw [hready] at hmem
    cases hmem

end Manned

/-! ## Turns -/

/-- The worker goes on. -/
theorem Manned.goOn (h : b.Manned handler) (hmem : () ∈ b.ready)
    (hstep : (machine ω).step b.now () b.state = ⟨s, .goOn, []⟩) (hh : s.handler = handler) (hs : s.serial.Sound) :
    Manned handler (b.turn ()) ∧ (b.turn ()).office State.desk = { b.office State.desk with desk := s.desk } := by
  rw [Bench.turn_of_goOn hstep]
  exact ⟨.modify hh hs h.nodup (h.alarms_eq_nil hmem) (.inl hmem), rfl⟩

/-- A worker that can do nothing leaves the line, and nothing of it can be seen at the desk. -/
theorem Manned.turn_wait (h : b.Manned handler) (hmem : () ∈ b.ready)
    (hstep : (machine ω).step b.now () b.state = (rig ω).work b.now 0 b.state)
    (hact : b.state.serial.act (b.state.flight.clocks b.now) .work = none)
    (hw : ∀ a, b.state.serial.worker ≠ .handling a) :
    Manned handler (b.turn ()) ∧ Bench.Unseen State.desk rank b (b.turn ()) := by
  have hact? : (rig ω).act? b.now b.state .work = none := Rig.act?_of_none hact
  have hwait : (rig ω).work b.now 0 b.state = ⟨b.state, .wait, []⟩ := Rig.work_of_none hact
  have hawake : (machine ω).awake b.now b.state = [] := by
    simp only [machine, State.awake, hact?]
    split <;> rfl
  have hlt := Bench.length_ready_turn_lt hmem (hstep.trans hwait) (hawake ▸ List.nil_subset _)
  rw [Bench.turn_of_wait (hstep.trans hwait)] at hlt ⊢
  refine ⟨.modify h.handler h.sound (h.nodup.erase ()) (h.alarms_eq_nil hmem) (.inr (.inr ?_)), ⟨rfl, .right _ hlt⟩⟩
  cases hstage : b.state.serial.worker with
  | absent => exact .inl rfl
  | asking | finished => exact .inr rfl
  | handling a => exact absurd hstage (hw a)
  | holding | settled =>
    rw [Serial.act, Serial.work, hstage] at hact
    cases hact

/-- The handler of the worker moves on, at the bench as in the office. If it triggers a key, it goes
into the line of the loop, as a loop that is willing takes every trigger. -/
theorem Manned.turn_handling (h : b.Manned handler) (hmem : () ∈ b.ready) (hw : b.state.serial.worker = .handling a)
    (hwilling : Willing (b.turn ()).state.desk.flight.log) :
    Manned handler (b.turn ()) ∧ (b.turn ()).office State.desk = (b.office State.desk).handle a := by
  have hstep : (machine ω).step b.now () b.state = (rig ω).handle b.now 0 b.state := by
    simp only [machine, State.step, hw]
  have hhandle : (b.office State.desk).handle a = (b.office State.desk).moved a (b.state.flight.move b.now 0).2
    (b.state.flight.move b.now 0).1 := rfl
  have hlater := b.state.flight.now_lt_of_move b.now 0
  rw [hhandle]
  unfold Rig.handle at hstep
  generalize b.state.flight.move b.now 0 = moved at hstep hlater ⊢
  obtain ⟨move, flight⟩ := moved
  cases move with
  | trigger key kind =>
    have hstep : (machine ω).step b.now () b.state =
        (rig ω).actThen b.now { b.state with flight } (.trigger key kind) .goOn := hstep
    cases hact : b.state.serial.act (flight.clocks b.now) (.trigger key kind) with
    | none => cases hact
    | some change =>
      obtain ⟨serial, notices⟩ := change
      rw [Rig.actThen_of_act hact] at hstep
      obtain ⟨hmanned, hoffice⟩ := h.goOn hmem hstep h.handler (Serial.sound_of_act h.sound hact)
      refine ⟨hmanned, hoffice.trans ?_⟩
      cases Serial.step_of_act hact with
      | accepted => rfl
      | refused =>
        rw [Bench.turn_of_goOn hstep] at hwilling
        -- a refusal would stand in the log
        exact absurd hwilling Willing.not_refused
  | sleepUntil moment =>
    have hlt : b.now < moment := hlater moment rfl
    rw [Bench.turn_of_sleepUntil hstep, h.alarms_eq_nil hmem, h.ready_eq hmem]
    exact ⟨.modify_asleep h.handler h.sound rfl rfl hlt hw, rfl⟩
  | goOn => exact h.goOn hmem hstep h.handler h.sound
  | finish result =>
    have hstep : (machine ω).step b.now () b.state =
        (rig ω).actThen b.now { b.state with flight } (.finish result) .goOn := hstep
    have hact : b.state.serial.act (flight.clocks b.now) (.finish result) =
        some ({ b.state.serial with worker := .settled a (a.elapsed b.now) (Serial.outcome result) }, []) := by
      simp only [Serial.act, hw]
      rfl
    rw [Rig.actThen_of_act hact] at hstep
    exact h.goOn hmem hstep h.handler (Serial.sound_of_act h.sound hact)

/-- The worker takes its turn while it runs no handler: that is what is next at the desk, or it
hears the signal or ends, which can not be seen there. -/
theorem Manned.turn_work (h : b.Manned handler) (hmem : () ∈ b.ready)
    (hstep : (machine ω).step b.now () b.state = (rig ω).work b.now 0 b.state)
    (hw : ∀ a, b.state.serial.worker ≠ .handling a) :
    Manned handler (b.turn ()) ∧ Bench.Follows handler State.desk rank b (b.turn ()) := by
  cases hact : b.state.serial.act (b.state.flight.clocks b.now) .work with
  | none => exact (h.turn_wait hmem hstep hact hw).imp_right .inl
  | some change =>
    obtain ⟨serial, notices⟩ := change
    have hwork := hstep.trans (Rig.work_of_act hact)
    obtain ⟨hmanned, hoffice⟩ := h.goOn hmem hwork h.handler (Serial.sound_of_act h.sound hact)
    have hserial : (b.turn ()).state.serial = serial := by rw [Bench.turn_of_goOn hwork]; rfl
    have hrank : serial.rank < b.state.serial.rank → Prod.Lex (· < ·) (· < ·) (rank (b.turn ())) (rank b) := by
      intro hlt
      rw [← hserial] at hlt
      exact .left _ _ hlt
    refine ⟨hmanned, ?_⟩
    cases Serial.step_of_act hact with
    | heard hw _ ho =>
      refine .inl ⟨hoffice, hrank ?_⟩
      simp [Serial.rank, hw, ho]
    | ended hw hs =>
      refine .inl ⟨hoffice.trans ?_, hrank ?_⟩
      · simp only [Bench.office, State.desk, hw]
        rfl
      · simp [Serial.rank, hw, hs]
    | took hw _ hl =>
      refine .inr ?_
      rw [hoffice]
      simp only [Office.next?, Bench.office, State.desk, hw, hl]
      rfl
    | began hw =>
      refine .inr ?_
      rw [hoffice]
      simp only [Office.next?, Bench.office, State.desk, hw, ← h.handler]
      rfl
    | recorded hw =>
      refine .inr ?_
      rw [hoffice]
      simp only [Office.next?, Bench.office, State.desk, hw]
      rfl

/-- Whatever the worker does in its turn is next at the desk, or can not be seen there. -/
theorem Manned.turn (h : b.Manned handler) (hmem : () ∈ b.ready)
    (hwilling : Willing (b.turn ()).state.desk.flight.log) :
    Manned handler (b.turn ()) ∧ Bench.Follows handler State.desk rank b (b.turn ()) := by
  cases hw : b.state.serial.worker with
  | handling a =>
    obtain ⟨hmanned, hoffice⟩ := h.turn_handling hmem hw hwilling
    refine ⟨hmanned, .inr ?_⟩
    rw [hoffice]
    simp only [Office.next?, Bench.office, State.desk, hw, h.alarms_eq_nil hmem]
    rfl
  | absent | asking | holding | settled | finished =>
    exact h.turn_work hmem (by simp only [machine, State.step, hw]) (by simp [hw])

/-! ## Rest -/

/-- When the worker is not in the line nothing is left to do at the desk, and the loop has come as
far as the desk says. -/
theorem Manned.rest (h : b.Manned handler) (hr : b.ready = []) :
    (b.office State.desk).next? handler = none ∧ b.state.phase = b.state.desk.restPhase := by
  have hphase : b.state.phase = b.state.serial.worker.phase := h.sound.phase
  rcases h.alarms with hnone | ⟨t, a, halarm, -, hw, -⟩
  · rcases h.attends hnone hr with hw | hw | ⟨hw, hask⟩
    · simp only [Office.next?, Desk.restPhase, Bench.office, State.desk, hphase, hw]
      exact ⟨rfl, rfl⟩
    · obtain ⟨hline, hstop⟩ := h.sound.ended hw
      simp only [Office.next?, Desk.restPhase, Bench.office, State.desk, hphase, hw, hline, hstop]
      exact ⟨rfl, rfl⟩
    · obtain ⟨hline, hgo⟩ := Serial.line_of_ask hask
      simp only [Office.next?, Desk.restPhase, Bench.office, State.desk, hphase, hw, hline, hgo]
      exact ⟨rfl, rfl⟩
  · simp only [Office.next?, Desk.restPhase, Bench.office, State.desk, hphase, hw, halarm]
    exact ⟨rfl, rfl⟩

/-- Time passes up to a moment before the alarm. -/
theorem Manned.still {target : Moment} (h : b.Manned handler)
    (hlate : ∀ alarm ∈ b.alarms.head?, ¬(b.now < alarm.1 ∧ alarm.1 ≤ target)) :
    Manned handler { b with now := max b.now target } := by
  refine ⟨h.handler, h.sound, h.nodup, h.alarms.imp_right ?_, h.attends⟩
  rintro ⟨t, a, halarm, hlt, hrest⟩
  exact ⟨t, a, halarm, Bench.max_lt_of_late halarm hlt hlate, hrest⟩

/-- The alarm goes off, and the worker is alone in the line. -/
theorem Manned.wake {alarm : Moment × Unit} (h : b.Manned handler) (hr : b.ready = []) (ha : alarm ∈ b.alarms.head?) :
    Manned handler (b.jump alarm.1) ∧ (b.jump alarm.1).alarms = [] := by
  rcases h.alarms with hnone | ⟨t, a, halarm, -⟩
  · rw [hnone] at ha
    cases ha
  · rw [halarm] at ha
    cases ha
    rw [Bench.jump_of_alarm hr halarm]
    exact ⟨⟨h.handler, h.sound, List.nodup_singleton (), .inl rfl, nofun⟩, rfl⟩

/-! ## Requests -/

/-- The worker stays where it is. -/
theorem Manned.stay (h : b.Manned handler) (hh : s.handler = handler) (hs : s.serial.Sound)
    (hw : s.serial.worker = b.state.serial.worker) : Manned handler (b.modify s []) := by
  rcases h.alarms with hnone | ⟨t, a, halarm, hlt, hstage, hready⟩
  · refine .modify hh hs h.nodup hnone ?_
    rw [hw]
    by_cases hmem : () ∈ b.ready
    · exact .inl hmem
    · refine .inr (.inr ?_)
      have hready : b.ready = [] := List.eq_nil_iff_forall_not_mem.mpr fun _ => hmem
      rcases h.attends hnone hready with hw | hw | ⟨hw, -⟩ <;> rw [hw]
      · exact .inl rfl
      · exact .inr rfl
      · exact .inr rfl
  · exact .modify_asleep hh hs hready halarm hlt (hw.trans hstage)

/-- Only the first time the loop is run counts. -/
theorem Manned.ask_run (h : b.Manned handler) :
    Manned handler (b.ask .run) ∧
      (b.ask .run).office State.desk = { b.office State.desk with desk := b.state.desk.ask b.now .run } ∧
      (b.ask .run).state.phase = b.state.phase.ask .run := by
  have hphase := h.sound.phase
  by_cases hi : b.state.serial.phase = .idle
  · have hact : b.state.serial.act (b.state.flight.clocks b.now) .run =
        some ({ b.state.serial with phase := .running, worker := .asking }, []) := if_pos hi
    have hask : b.ask .run = b.modify _ [()] := Rig.request_of_act hact
    have hw : b.state.serial.worker = .absent := by
      rw [hphase] at hi
      cases hstage : b.state.serial.worker with
      | absent => rfl
      | asking | holding | handling | settled | finished =>
        rw [hstage] at hi
        cases hi
    have halarms : b.alarms = [] := by
      rcases h.alarms with hnone | ⟨t, a, -, -, hstage, -⟩
      · exact hnone
      · cases hw.symm.trans hstage
    rw [hask]
    refine ⟨.modify h.handler (Serial.sound_of_act h.sound hact) h.nodup halarms (.inr (.inl List.mem_cons_self)), ?_,
      (if_pos hi).symm⟩
    simp only [Desk.ask, State.desk, hw, Bench.office, Bench.modify]
    rfl
  · have hact : b.state.serial.act (b.state.flight.clocks b.now) .run = none := if_neg hi
    have hask : b.ask .run = b.modify b.state [] := Rig.request_of_none hact
    rw [hask]
    refine ⟨h.stay h.handler h.sound rfl, ?_, (if_neg hi).symm⟩
    rw [hphase] at hi
    cases hstage : b.state.serial.worker with
    | absent =>
      rw [hstage] at hi
      exact absurd rfl hi
    | asking | holding | handling | settled | finished =>
      simp only [Desk.ask, State.desk, hstage, Bench.office, Bench.modify]
      rfl

/-- A request does to the bench what it does to the desk. -/
theorem Manned.ask {request : Request} (h : b.Manned handler)
    (hwilling : Willing (b.ask request).state.desk.flight.log) :
    Manned handler (b.ask request) ∧
      (b.ask request).office State.desk = { b.office State.desk with desk := b.state.desk.ask b.now request } ∧
      (b.ask request).state.phase = b.state.phase.ask request := by
  cases request with
  | run => exact h.ask_run
  | stop =>
    have hact : b.state.serial.act (b.state.flight.clocks b.now) .stop =
      some ({ b.state.serial with stopRequested := true }, []) := rfl
    have hask : b.ask .stop = _ := Rig.request_of_act (r := rig ω) (b := b) (a := .stop) hact
    rw [hask]
    exact ⟨h.stay h.handler (Serial.sound_of_act h.sound hact) rfl, rfl, rfl⟩
  | trigger key kind =>
    cases hact : b.state.serial.act (b.state.flight.clocks b.now) (.trigger key kind) with
    | none => cases hact
    | some change =>
      obtain ⟨serial, notices⟩ := change
      have hask : b.ask (.trigger key kind) = _ :=
        Rig.request_of_act (r := rig ω) (b := b) (a := .trigger key kind) hact
      rw [hask] at hwilling ⊢
      have hsound := Serial.sound_of_act h.sound hact
      cases Serial.step_of_act hact with
      | accepted => exact ⟨h.stay h.handler hsound rfl, rfl, rfl⟩
      | refused => exact absurd hwilling Willing.not_refused
  | advanceClock span => exact ⟨h.stay h.handler h.sound rfl, rfl, rfl⟩

/-! ## The log grows -/

theorem log_step (now : Moment) (s : State ω) : s.flight.log <:+ (s.step now ()).state.flight.log := by
  unfold State.step
  split
  · exact (rig ω).log_handle now 0 s
  · exact (rig ω).log_work now 0 s

/-- A serial loop does what is done at a desk. -/
theorem refines (handler : Handler ω) :
    Bench.Refines handler ask State.desk State.phase Willing (Manned handler) rank where
  fair := Willing.of_suffix
  grows now _ s := log_step now s
  grows_ask := (rig ω).log_ask
  turn h hmem hwilling := h.turn hmem hwilling
  rest h hr := h.rest hr
  still h _ hlate := h.still hlate
  wake h hr ha := h.wake hr ha
  ask h hwilling := h.ask hwilling

theorem manned_create (handler : Handler ω) (capacity : Nat) (world : ω) (wall : Timestamp) :
    Manned handler (create handler capacity world wall) :=
  ⟨rfl, Serial.sound_fresh capacity, List.nodup_nil, .inl rfl, fun _ _ => .inl rfl⟩

end SerialBench

end ControlLoop
