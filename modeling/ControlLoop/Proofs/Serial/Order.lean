import ControlLoop.Proofs.Serial.Hall

/-!
# One after the other

A serial loop works off its triggers in the order in which they were accepted, one at a time, each
once, and when it is stopped it has worked off all of them. Whoever comes after somebody was refused
is refused too.

`Hall.Ordered` compares the log with where the loop stands: every trigger that was accepted has its
record, or is with the worker, or waits in the line. The line can only be closed when the worker has
raised its flag, and only a closed line lets the worker end; so nothing is left in it that the
worker does not see.

The last part is about callers. `Hall.Guarded` says that nobody is refused before the worker has
seen the signal to stop, and `Hall.TooLate` that whoever comes after that does not get beyond the
first look. The ledger is not part of these invariants: it is given the records of the log, whatever
they are (`Hall.ledger_of_run`).
-/

namespace ControlLoop.Serial

/-- The triggers that a log says were accepted, oldest first. -/
def accepted (log : List Event) : List (Key × Trigger) :=
  log.filterMap fun
    | .accepted _ key kind => some (key, kind)
    | .came _ | .refused .. | .noticed _ => none

/-- What a log says has happened to the loop, but for its triggers. -/
def noticed (log : List Event) : List Notice :=
  log.filterMap fun
    | .noticed n => some n
    | .came _ | .accepted .. | .refused .. => none

/-- The records that a log tells of, oldest first. -/
def records (log : List Event) : List Record :=
  (noticed log).filterMap fun
    | .recorded r => some r
    | _ => none

/-- The trigger that a record is about. -/
def asked (r : Record) : Key × Trigger := (r.key, r.trigger)

/-- An attempt from its delivery to its record. -/
def story (r : Record) : List Notice := [.delivered r.key r.trigger, .began r.key, .recorded r]

/-- A failure is final, and nothing is tried again. -/
def Plain (r : Record) : Prop := r.retryCount = 0 ∧ (r.outcome = .success ∨ ∃ e, r.outcome = .failureFinal e)

namespace Stage

/-- The trigger that the worker has in hand. -/
def inHand : Stage → List (Key × Trigger)
  | holding key kind => [(key, kind)]
  | handling a | settled a .. => [(a.key, a.trigger)]
  | absent | asking | finished => []

/-- What an onlooker has taken down of the attempt that the worker makes. -/
def begun : Stage → List Notice
  | holding key kind => [.delivered key kind]
  | handling a | settled a .. => [.delivered a.key a.trigger, .began a.key]
  | absent | asking | finished => []

/-- The attempt that the worker makes is to be recorded as a plain one. -/
def IsPlain : Stage → Prop
  | handling a => a.retryCount = 0
  | settled a d o => ∀ id, Plain (a.record id d o)
  | absent | asking | holding .. | finished => True

end Stage

/-- The log agrees with where the loop stands: what was accepted is what is recorded, then what is
in hand, then what is in the line; and of each attempt an onlooker has seen as much as the stage of
the worker says. -/
structure Hall.Ordered (h : Hall) (log : List Event) : Prop where
  /-- before the loop runs there is no worker -/
  idle : h.serial.phase = .idle → h.serial.worker = .absent
  /-- the line is closed only when the worker has seen the signal to stop -/
  shut : h.shut = true → h.serial.stopping = true
  /-- the loop stops when the line is closed and empty -/
  stopped : h.serial.phase = .stopped → h.serial.worker = .finished ∧ h.serial.line = [] ∧ h.shut = true
  /-- every trigger that was accepted is recorded, or in hand, or in the line -/
  accounted : accepted log = (records log).map asked ++ h.serial.worker.inHand ++ h.serial.line
  /-- one attempt has come after the other -/
  told : noticed log = (records log).flatMap story ++ h.serial.worker.begun
  /-- the attempt that is made is a plain one -/
  inHand : h.serial.worker.IsPlain
  /-- and so were all that were recorded -/
  plain : ∀ r ∈ records log, Plain r

/-- The log agrees with where the callers stand. -/
structure Hall.Guarded (h : Hall) (log : List Event) : Prop where
  /-- nobody is refused before the worker has seen the signal to stop -/
  refused : ∀ ticket key, .refused ticket key ∈ log → h.serial.stopping = true
  /-- whoever is in the middle of a trigger has come -/
  callers : ∀ c ∈ h.callers, c.ticket < h.tickets
  /-- and so has everybody who was let in -/
  letIn : ∀ ticket key kind, .accepted ticket key kind ∈ log → ticket < h.tickets

variable {clocks : Clocks} {h h' : Hall} {m : Move} {a : Action} {serial : Serial} {log new : List Event}
  {notices : List Notice}

/-! ## The parts of a log

A log is read through filters that go along with `++`, as for a pool. -/

@[simp] theorem accepted_append (log new : List Event) : accepted (log ++ new) = accepted log ++ accepted new :=
  List.filterMap_append

@[simp] theorem noticed_append (log new : List Event) : noticed (log ++ new) = noticed log ++ noticed new :=
  List.filterMap_append

@[simp] theorem records_append (log new : List Event) : records (log ++ new) = records log ++ records new := by
  rw [records, noticed_append, List.filterMap_append]
  rfl

@[simp] theorem accepted_map_noticed (notices : List Notice) : accepted (notices.map .noticed) = [] := by
  simp [accepted]

@[simp] theorem noticed_map_noticed (notices : List Notice) : noticed (notices.map .noticed) = notices := by
  simp [noticed, List.filterMap_map]

/-- What a handler says is recorded as a success or as a final failure: a serial loop has no
retries. -/
theorem plain_of_outcome {a : Attempt} (ha : a.retryCount = 0) (result : Result) (id : Uuid) (d : Span) :
    Plain (a.record id d (outcome result)) := by
  refine ⟨ha, ?_⟩
  show outcome result = .success ∨ ∃ e, outcome result = .failureFinal e
  unfold outcome
  cases result.error? with
  | none => exact .inl rfl
  | some error => exact .inr ⟨error, rfl⟩

/-! ## The loop

`Hall.Ordered` is kept by every move. A trigger that is let in lengthens both what was accepted and
the line; the worker moves a trigger from the line into its hand, and from there into the records;
and whatever callers do else does not touch the loop. The one step that needs an argument is the end
of the worker: it finds the line empty, and as the line is closed it stays so. -/

namespace Hall.Ordered

/-- A loop that has not run has accepted nothing, and there is nothing in its line. -/
theorem opened (capacity : Nat) : (opened capacity).Ordered [] where
  idle _ := rfl
  shut := nofun
  stopped := nofun
  accounted := rfl
  told := rfl
  inHand := trivial
  plain := by simp [records, noticed]

theorem phase_ne_stopped (ho : h.Ordered log) (hw : h.serial.worker ≠ .finished) : h.serial.phase ≠ .stopped :=
  fun hs => hw (ho.stopped hs).1

/-- Callers come and go, but nothing happens to the loop. -/
theorem of_quiet (ho : h.Ordered log) (hs : h'.serial = h.serial) (hc : h'.shut = h.shut) (ha : accepted new = [])
    (hn : noticed new = []) : h'.Ordered (log ++ new) := by
  have hr : records new = [] := congrArg _ hn
  obtain ⟨serial, shut, tickets, callers⟩ := h'
  subst hs hc
  refine ⟨ho.idle, ho.shut, ho.stopped, ?_, ?_, ho.inHand, ?_⟩
  · rw [accepted_append, records_append, ha, hr, List.append_nil, List.append_nil]
    exact ho.accounted
  · rw [noticed_append, records_append, hn, hr, List.append_nil, List.append_nil]
    exact ho.told
  · rw [records_append, hr, List.append_nil]
    exact ho.plain

/-- A trigger goes to the end of the line. The loop can not have stopped, since it stops when the
line is closed. -/
theorem letIn (ho : h.Ordered log) (hopen : h.shut = false) (ticket : Nat) (key : Key) (kind : Trigger)
    (callers : List Caller) :
    Ordered { h with serial.line := h.serial.line ++ [(key, kind)], callers } (log ++ [.accepted ticket key kind]) where
  idle := ho.idle
  shut := ho.shut
  stopped hs := by
    -- a loop that has stopped has a closed line, and nobody is let into one
    have hshut := (ho.stopped hs).2.2
    rw [hopen] at hshut
    cases hshut
  accounted := by
    rw [accepted_append, records_append, ho.accounted]
    simp [accepted, records, noticed]
  told := by
    rw [noticed_append, records_append, ho.told]
    simp [records, noticed]
  inHand := ho.inHand
  plain := by
    rw [records_append]
    simpa [records, noticed] using ho.plain

theorem phase_ne_idle (ho : h.Ordered log) (hw : h.serial.worker ≠ .absent) : h.serial.phase ≠ .idle :=
  fun hi => hw (ho.idle hi)

/-- The worker moves on, and makes no record: what it has in hand and what is in the line are
together what they were, and what an onlooker has taken down is what has begun of its attempt. Every
step of the worker but one has this form. -/
theorem move (ho : h.Ordered log) {old : Stage} (hw : h.serial.worker = old)
    (hr : records (notices.map .noticed) = []) (hi : serial.phase ≠ .idle)
    (hs : h.serial.stopping = true → serial.stopping = true)
    (hstopped : serial.phase = .stopped → serial.worker = .finished ∧ serial.line = [] ∧ h.shut = true)
    (hline : old.inHand ++ h.serial.line = serial.worker.inHand ++ serial.line)
    (hbegun : old.begun ++ notices = serial.worker.begun) (hplain : serial.worker.IsPlain) :
    Ordered { h with serial } (log ++ notices.map .noticed) where
  idle hidle := absurd hidle hi
  shut hshut := hs (ho.shut hshut)
  stopped := hstopped
  accounted := by
    rw [accepted_append, records_append, ho.accounted, hw, hr, accepted_map_noticed, List.append_nil, List.append_nil,
      List.append_assoc, hline, ← List.append_assoc]
  told := by
    rw [noticed_append, records_append, ho.told, hw, hr, noticed_map_noticed, List.append_nil, List.append_assoc,
      hbegun]
  inHand := hplain
  plain := by
    rw [records_append, hr, List.append_nil]
    exact ho.plain

/-- The worker makes the record of its attempt, and has nothing in hand any more. -/
theorem record (ho : h.Ordered log) {a : Attempt} {d : Span} {o : Outcome} (hw : h.serial.worker = .settled a d o)
    (id : Uuid) (ledger : Ledger) (count : Nat) :
    Ordered { h with serial := { h.serial with ledger, recordCount := count, worker := .asking } }
      (log ++ [.noticed (.recorded (a.record id d o))]) where
  idle hi := absurd hi (ho.phase_ne_idle (by simp [hw]))
  shut := ho.shut
  stopped hs := absurd hs (ho.phase_ne_stopped (by simp [hw]))
  accounted := by
    rw [accepted_append, records_append, ho.accounted, hw]
    simp [accepted, records, noticed, Stage.inHand, asked, Attempt.record]
  told := by
    rw [noticed_append, records_append, ho.told, hw]
    simp [records, noticed, Stage.begun, story, Attempt.record]
  inHand := trivial
  plain r hr := by
    rw [records_append] at hr
    rcases List.mem_append.mp hr with hr | hr
    · exact ho.plain r hr
    · have hplain := ho.inHand
      rw [hw] at hplain
      obtain rfl : r = a.record id d o := by simpa [records, noticed] using hr
      exact hplain id

/-- Every step of the loop keeps the order. It ends only when the line is closed and empty
(`Closing` keeps it from ending before), and it records what it has settled; else it moves on. -/
theorem loop (ho : h.Ordered log) (ht : ∀ key kind, a ≠ .trigger key kind) (hc : a = .work → ¬h.Closing)
    (hs : Step clocks h.serial a serial notices) : Ordered { h with serial } (log ++ notices.map .noticed) := by
  cases hs with
  | accepted | refused => exact absurd rfl (ht _ _)
  | started hi => exact ho.move (ho.idle hi) rfl (by simp) id (by simp) rfl rfl trivial
  | stopRequested =>
    rw [List.map_nil, List.append_nil]
    exact ⟨ho.idle, ho.shut, ho.stopped, ho.accounted, ho.told, ho.inHand, ho.plain⟩
  | heard hw =>
    exact ho.move rfl rfl (ho.phase_ne_idle (by simp [hw])) (fun _ => rfl) ho.stopped rfl (List.append_nil _) ho.inHand
  -- the first trigger in the line is in hand now
  | took hw hr hl =>
    refine ho.move hw rfl (ho.phase_ne_idle (by simp [hw])) id ?_ hl rfl trivial
    exact fun hs => absurd hs (ho.phase_ne_stopped (by simp [hw]))
  | ended hw hs hl =>
    refine ho.move hw rfl (by simp) id (fun _ => ⟨rfl, hl, ?_⟩) rfl rfl trivial
    -- with the line open the worker would be about to close it, and do nothing else
    by_contra hopen
    exact hc rfl ⟨hs, Bool.eq_false_iff.mpr hopen⟩
  | began hw =>
    refine ho.move hw rfl (ho.phase_ne_idle (by simp [hw])) id ?_ rfl rfl rfl
    exact fun hs => absurd hs (ho.phase_ne_stopped (by simp [hw]))
  | settled hw =>
    have hplain := ho.inHand
    rw [hw] at hplain
    refine ho.move hw rfl (ho.phase_ne_idle (by simp [hw])) id ?_ rfl rfl fun id => plain_of_outcome hplain _ id _
    exact fun hs => absurd hs (ho.phase_ne_stopped (by simp [hw]))
  | recorded hw => exact ho.record hw _ _ _

/-- Every move keeps the order. Callers that come, look or are turned away leave the loop as it is;
one that is let in goes to the end of the line. -/
theorem step (ho : h.Ordered log) (hs : Turn clocks h m h' new) : h'.Ordered (log ++ new) := by
  cases hs with
  | came | wentOn | turnedAway => exact ho.of_quiet rfl rfl rfl rfl
  | letIn hc ha hopen => exact ho.letIn hopen ..
  | shut hc =>
    rw [List.append_nil]
    refine ⟨ho.idle, fun _ => hc.1, fun hs => ?_, ho.accounted, ho.told, ho.inHand, ho.plain⟩
    obtain ⟨hw, hl, -⟩ := ho.stopped hs
    exact ⟨hw, hl, rfl⟩
  | loop ht hc hs => exact ho.loop ht hc hs

end Hall.Ordered

/-! ## The callers

A caller is turned away at one of its looks, or at the line when that is closed. In each case the
worker has raised its flag before, and it never takes it back. -/

/-- The worker does not forget that it has seen the signal to stop. So whoever is refused for it
stays refused. -/
theorem stopping_of_step {s s' : Serial} (hs : Step clocks s a s' notices) (h : s.stopping = true) :
    s'.stopping = true := by
  cases hs <;> first | exact h | rfl

namespace Hall.Guarded

theorem opened (capacity : Nat) : (opened capacity).Guarded [] where
  refused := by simp
  callers := by simp [Hall.opened]
  letIn := by simp

/-- Every move keeps the callers guarded: they have tickets, and nobody is refused while the loop is
willing. -/
theorem step (hg : h.Guarded log) (ho : h.Ordered log) (hs : Turn clocks h m h' new) : h'.Guarded (log ++ new) := by
  cases hs with
  | came =>
    refine ⟨fun t k hm => hg.refused t k ?_, fun c hc => ?_, fun t k kind hm => ?_⟩
    · simpa using hm
    · rcases List.mem_cons.mp hc with rfl | hc
      · exact Nat.lt_succ_self _
      · exact Nat.lt_succ_of_lt (hg.callers c hc)
    · exact Nat.lt_succ_of_lt (hg.letIn t k kind (by simpa using hm))
  | @wentOn c later hc =>
    rw [List.append_nil]
    refine ⟨hg.refused, fun c' hc' => ?_, hg.letIn⟩
    rcases List.mem_cons.mp hc' with rfl | hc'
    · exact hg.callers c hc
    · exact hg.callers c' (List.mem_of_mem_erase hc')
  | turnedAway hc hclosed =>
    refine ⟨fun _ _ _ => ?_, fun c hc => hg.callers c (List.mem_of_mem_erase hc), fun t k kind hm => ?_⟩
    · rcases hclosed with hs | hs | hs
      · exact hs
      · exact ho.shut (ho.stopped hs).2.2
      · exact ho.shut hs
    · exact hg.letIn t k kind (by simpa using hm)
  | @letIn c hc =>
    refine ⟨fun t k hm => hg.refused t k ?_, fun c hc => hg.callers c (List.mem_of_mem_erase hc), fun t k kind hm => ?_⟩
    · simpa using hm
    · rcases List.mem_append.mp hm with hm | hm
      · exact hg.letIn t k kind hm
      · obtain ⟨rfl, -, -⟩ : t = c.ticket ∧ k = c.key ∧ kind = c.kind := by simpa using hm
        exact hg.callers c hc
  | shut =>
    rw [List.append_nil]
    exact ⟨hg.refused, hg.callers, hg.letIn⟩
  | loop ht hc hs =>
    refine ⟨fun t k hm => stopping_of_step hs (hg.refused t k ?_), hg.callers, fun t k kind hm => hg.letIn t k kind ?_⟩
    · simpa using hm
    · simpa using hm

end Hall.Guarded

/-! ## Those who come too late

The tickets divide the callers into those who came before the refusal and those who came after. The
latter find the flag set at their first look, so none of them ever gets to the second one, or into
the line. -/

/-- Since the worker has seen the signal to stop, whoever has come after that does not get beyond
the first look; their tickets begin with `first`. -/
structure Hall.TooLate (first : Nat) (h : Hall) (log : List Event) : Prop where
  /-- the worker has seen the signal -/
  stopping : h.serial.stopping = true
  /-- those who have come since have later tickets -/
  tickets : first ≤ h.tickets
  /-- and so have those in the log -/
  came : ∀ ticket, .came ticket ∈ log → first ≤ ticket
  /-- they are still to look -/
  coming : ∀ c ∈ h.callers, first ≤ c.ticket → c.approach = .coming
  /-- they were not let in -/
  letIn : ∀ ticket key kind, .accepted ticket key kind ∈ log → ticket < first

/-- Every move keeps those out who have come too late: their first look tells them that the worker
has seen the signal. -/
theorem Hall.TooLate.step {first : Nat} (hl : h.TooLate first log) (hs : Turn clocks h m h' new) :
    h'.TooLate first (log ++ new) := by
  cases hs with
  | came =>
    refine ⟨hl.stopping, Nat.le_succ_of_le hl.tickets, fun t hm => ?_, fun c hc hlate => ?_, fun t k kind hm => ?_⟩
    · rcases List.mem_append.mp hm with hm | hm
      · exact hl.came t hm
      · obtain rfl : t = h.tickets := by simpa using hm
        exact hl.tickets
    · rcases List.mem_cons.mp hc with rfl | hc
      · rfl
      · exact hl.coming c hc hlate
    · exact hl.letIn t k kind (by simpa using hm)
  | @wentOn c later hc ha =>
    rw [List.append_nil]
    refine ⟨hl.stopping, hl.tickets, hl.came, fun c' hc' hlate => ?_, hl.letIn⟩
    rcases List.mem_cons.mp hc' with rfl | hc'
    · -- whoever comes too late sees that the worker has seen the signal
      have hcoming := hl.coming c hc hlate
      rcases ha with ⟨-, hopen⟩ | ⟨hlooking, -⟩
      · cases hl.stopping.symm.trans hopen
      · cases hcoming.symm.trans hlooking
    · exact hl.coming c' (List.mem_of_mem_erase hc') hlate
  | turnedAway =>
    refine ⟨hl.stopping, hl.tickets, fun t hm => hl.came t ?_, fun c hc => hl.coming c (List.mem_of_mem_erase hc),
      fun t k kind hm => hl.letIn t k kind ?_⟩
    · simpa using hm
    · simpa using hm
  | @letIn c hc ha =>
    refine ⟨hl.stopping, hl.tickets, fun t hm => hl.came t ?_, fun c hc => hl.coming c (List.mem_of_mem_erase hc),
      fun t k kind hm => ?_⟩
    · simpa using hm
    · rcases List.mem_append.mp hm with hm | hm
      · exact hl.letIn t k kind hm
      · obtain ⟨rfl, -, -⟩ : t = c.ticket ∧ k = c.key ∧ kind = c.kind := by simpa using hm
        by_contra hlate
        cases (hl.coming c hc (Nat.not_lt.mp hlate)).symm.trans ha
  | shut =>
    rw [List.append_nil]
    exact ⟨hl.stopping, hl.tickets, hl.came, hl.coming, hl.letIn⟩
  | loop ht hc hs =>
    refine ⟨stopping_of_step hs hl.stopping, hl.tickets, fun t hm => hl.came t ?_, hl.coming,
      fun t k kind hm => hl.letIn t k kind ?_⟩
    · simpa using hm
    · simpa using hm

/-! ## Every run

The two invariants go along a run together, and the ledger beside them. The last clause of the
theorem cuts the run at the refusal, and follows those who come later through the rest of it. -/

variable {capacity : Nat} {steps : List (Clocks × Move)}

/-- Along every run the log agrees with where the loop and the callers stand. -/
theorem Hall.ordered_of_run (hrun : takeSteps act (opened capacity) steps = some (h, log)) :
    h.Ordered log ∧ h.Guarded log := by
  have hkeeps := takeSteps_induct (fun h log => h.Ordered log ∧ h.Guarded log)
    (fun hinv hact => ⟨hinv.1.step (turn_of_act hact), hinv.2.step hinv.1 (turn_of_act hact)⟩)
    ⟨Ordered.opened capacity, Guarded.opened capacity⟩ hrun
  rwa [List.nil_append] at hkeeps

/-- A step gives the ledger the records that it makes, and no step but the worker's touches it. -/
theorem Hall.ledger_of_turn (hs : Turn clocks h m h' new) :
    h'.serial.ledger = (records new).foldl Ledger.record h.serial.ledger := by
  cases hs with
  | came | wentOn | turnedAway | letIn | shut => rfl
  | loop ht hc hs =>
    rw [records, noticed_map_noticed]
    cases hs <;> rfl

/-- The ledger is given the records that the log tells of, in their order, and no others. -/
theorem Hall.ledger_of_run (hrun : takeSteps act (opened capacity) steps = some (h, log)) :
    h.serial.ledger = (records log).foldl Ledger.record (Ledger.empty capacity) := by
  have hopened : (opened capacity).serial.ledger = (records []).foldl Ledger.record (Ledger.empty capacity) := rfl
  have hkeeps := takeSteps_induct
    (fun h log => h.serial.ledger = (records log).foldl Ledger.record (Ledger.empty capacity))
    (fun hinv hact => by rw [ledger_of_turn (turn_of_act hact), hinv, records_append, List.foldl_append])
    hopened hrun
  rwa [List.nil_append] at hkeeps

/-- Of the attempt that is made an onlooker has seen the delivery and the beginning at most. -/
theorem Stage.begun_prefix (s : Stage) : ∃ key kind, s.begun <+: [.delivered key kind, .began key] := by
  cases s with
  | absent | asking | finished => exact ⟨"", .auto, List.nil_prefix⟩
  | holding key kind => exact ⟨key, kind, List.prefix_append [_] [_]⟩
  | handling a | settled a => exact ⟨a.key, a.trigger, List.prefix_rfl⟩

/-- A refusal is an event of its own. -/
theorem Hall.Turn.eq_of_refused (hs : Turn clocks h m h' new) {ticket : Nat} {key : Key}
    (hm : .refused ticket key ∈ new) : new = [.refused ticket key] := by
  cases hs with
  | turnedAway => rw [List.mem_singleton.mp hm]
  | came | wentOn | letIn | shut | loop => simp at hm

/-- Whoever comes after somebody was refused is not let in. Until the refusal the run keeps
`Guarded`, so the worker has seen the signal by then; from there on it keeps `TooLate`, with the
tickets that have been given out as the bound. -/
theorem Hall.not_letIn_of_refused {before after : List Event} {ticket late : Nat} {key k : Key} {kind : Trigger}
    (hrun : takeSteps act (opened capacity) steps = some (h, before ++ .refused ticket key :: after))
    (hlate : .came late ∈ after) : .accepted late k kind ∉ before ++ .refused ticket key :: after := by
  obtain ⟨first, ⟨clocks, m⟩, second, u, v, earlier, early, rest, later, rfl, hfirst, hact, hsecond, rfl, rfl⟩ :=
    exists_step_of_takeSteps hrun
  obtain ⟨ho, hg⟩ := ordered_of_run hfirst
  have hturn := turn_of_act hact
  have hv := hg.step ho hturn
  obtain ⟨rfl, rfl⟩ : early = [] ∧ rest = [] := by
    have halone := hturn.eq_of_refused (List.mem_append_right _ List.mem_cons_self)
    simpa using List.append_eq_singleton_iff.mp halone
  have hstart : v.TooLate v.tickets [] := {
    stopping := hv.refused ticket key (by simp)
    tickets := Nat.le_refl _
    came := by simp
    coming := fun c hc hle => absurd (hv.callers c hc) (Nat.not_lt.mpr hle)
    letIn := by simp }
  have hend := takeSteps_induct (TooLate v.tickets) (fun hl hact => hl.step (turn_of_act hact)) hstart hsecond
  rw [List.nil_append] at hend
  intro hm
  have hle := hend.came late hlate
  rw [List.append_nil] at hm
  rcases List.mem_append.mp hm with hm | hm
  · exact Nat.not_lt.mpr hle (hv.letIn late k kind (List.mem_append_left _ hm))
  · rcases List.mem_cons.mp hm with hm | hm
    · cases hm
    · exact Nat.not_lt.mpr hle (hend.letIn late k kind hm)

/-- **One after the other**: the records are those of the first triggers that were accepted, in
their order, one for each, plain, and made one after the other, and the ledger was given just them.
When the loop is stopped, all that were accepted are recorded. Whoever comes after somebody was
refused is not let in. -/
theorem Hall.triggers_worked_off_in_order (hrun : takeSteps act (opened capacity) steps = some (h, log)) :
    (records log).map asked <+: accepted log ∧ (∀ r ∈ records log, Plain r) ∧
      h.serial.ledger = (records log).foldl Ledger.record (Ledger.empty capacity) ∧
      (∃ key kind, ∃ current, current <+: [.delivered key kind, .began key] ∧
        noticed log = (records log).flatMap story ++ current) ∧
      (h.serial.phase = .stopped → (records log).map asked = accepted log) ∧
      ∀ before ticket key after, log = before ++ .refused ticket key :: after →
        ∀ late, .came late ∈ after → ∀ key kind, .accepted late key kind ∉ log := by
  obtain ⟨ho, -⟩ := ordered_of_run hrun
  refine ⟨?_, ho.plain, ledger_of_run hrun, ?_, fun hs => ?_, ?_⟩
  · rw [ho.accounted, List.append_assoc]
    exact List.prefix_append _ _
  · obtain ⟨key, kind, hbegun⟩ := h.serial.worker.begun_prefix
    exact ⟨key, kind, _, hbegun, ho.told⟩
  · obtain ⟨hw, hl, -⟩ := ho.stopped hs
    rw [ho.accounted, hw, hl]
    simp [Stage.inHand]
  · rintro before ticket key after rfl late hlate k kind
    exact not_letIn_of_refused hrun hlate

/-- A key is triggered before the loop runs, and another while it is handled and the loop is about
to stop: its trigger gets into the line after the worker has seen the signal, and before it closes
the line. A third one is refused, and a fourth comes after that. -/
def triggersWhileStopping : List Move :=
  [.come "a" .manual, .proceed ⟨0, "a", .manual, .coming⟩, .proceed ⟨0, "a", .manual, .looking⟩,
    .proceed ⟨0, "a", .manual, .entering⟩, .loop .run, .loop .work, .loop .work, .come "b" .auto,
    .proceed ⟨1, "b", .auto, .coming⟩, .proceed ⟨1, "b", .auto, .looking⟩, .loop .stop,
    .loop (.finish (.failure ⟨"down"⟩)), .loop .work, .loop .work, .proceed ⟨1, "b", .auto, .entering⟩, .shut,
    .come "c" .manual, .proceed ⟨2, "c", .manual, .coming⟩, .come "d" .auto, .loop .work, .loop .work,
    .loop (.finish (.panic none)), .loop .work, .loop .work]

/-- The first two are recorded when the loop is stopped, and the fourth has not been let in. -/
theorem Hall.triggers_worked_off_in_order_while_stopping :
    ∃ h log, takeSteps act (opened 10) (triggersWhileStopping.map (⟨0, .epoch⟩, ·)) = some (h, log) ∧
      h.serial.phase = .stopped ∧ (records log).map asked = [("a", .manual), ("b", .auto)] ∧
      .accepted 3 "d" .auto ∉ log := by
  generalize hr : takeSteps _ _ _ = r
  have hseen : r.map (fun r => (r.1.serial.phase, accepted r.2, (r.2.drop 8).take 2)) =
      some (.stopped, [("a", .manual), ("b", .auto)], [.refused 2 "c", .came 3]) := by
    rw [← hr]
    decide +kernel
  obtain ⟨⟨h, log⟩, rfl, hmap⟩ := Option.map_eq_some_iff.mp hseen
  simp only [Prod.mk.injEq] at hmap
  obtain ⟨hstopped, haccepted, hsplit⟩ := hmap
  have hlog : log = log.take 8 ++ .refused 2 "c" :: .came 3 :: (log.drop 8).drop 2 := by
    have hparts := List.take_append_drop 2 (log.drop 8)
    rw [hsplit] at hparts
    exact ((congrArg (log.take 8 ++ ·) hparts).trans (List.take_append_drop 8 log)).symm
  obtain ⟨-, -, -, -, hall, hlate⟩ := triggers_worked_off_in_order hr
  exact ⟨h, log, rfl, hstopped, (hall hstopped).trans haccepted,
    hlate _ 2 "c" _ hlog 3 List.mem_cons_self "d" .auto⟩

end ControlLoop.Serial
