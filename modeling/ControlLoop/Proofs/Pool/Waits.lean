import ControlLoop.Proofs.Pool.Isolated
import ControlLoop.Proofs.Pool.Quiet

/-!
# When a failed key waits as long as the policy says

A key that fails for the third time in a row should wait as long as the policy says of a third
failure, unless somebody triggers it. But all retries of a key share one timer: a timer that runs
already and goes off earlier is left as it is, and one that goes off during the attempt marks the
key. After a trigger has delivered the key early, the timer of an earlier failure may still run, and
cut the wait short. `waits_for_backoff_iff` says that nothing else does.

As for a settled key, the condition is exact: where it fails, steps are given that attempt the key
too early (`Sound.not_waitsUntil_of_marked`, `Sound.not_waitsUntil_of_delayed`), and where it holds
no path has such an attempt (`Standing.PutOff.of_path`). `wait_cut_short` gives a run in which it
fails.
-/

namespace ControlLoop.Pool

/-- No attempt of the key begins before a moment, unless the key is triggered. The statement is
about all runs that may follow, as time goes on from `now`. -/
def WaitsUntil (setup : Setup) (now deadline : Moment) (p : Pool) (key : Key) : Prop :=
  ∀ steps q log, InOrder steps → (∀ s ∈ steps, now ≤ s.1.now) → run setup p steps = some (q, log) →
    (∀ t kind, (t, .accepted key kind) ∉ log) → ∀ t, (t, .began key) ∈ log → deadline ≤ t

/-- How many attempts in a row have failed of late and are to be repeated. -/
def failuresInARow (records : List Record) : Nat := (records.reverse.takeWhile (·.outcome.repeats)).length

/-- One more record adds to the failures in a row, or ends the row. -/
@[simp] theorem failuresInARow_concat (records : List Record) (r : Record) :
    failuresInARow (records ++ [r]) = if r.outcome.repeats then failuresInARow records + 1 else 0 := by
  rw [failuresInARow, List.reverse_concat, List.takeWhile_cons]
  split <;> rfl

namespace RetryLaw

variable {limit : Nat} {records : List Record} {r : Record}

/-- The records before the last one obey the law as well, and the last one has the count that they
ask for. -/
theorem of_concat (h : RetryLaw limit (records ++ [r])) :
    RetryLaw limit records ∧ r.retryCount = expectedCount records := by
  have hsub : ∀ s ∈ records, s ∈ records ++ [r] := fun s hs => List.mem_append_left _ hs
  obtain ⟨hnext, -, hjoin⟩ := List.isChain_append.mp h.next
  refine ⟨⟨fun s hs => ?_, hnext, fun s hs => h.failure_lt s (hsub s hs), fun s hs => h.final_of_limit s (hsub s hs),
    fun s hs => h.le_limit s (hsub s hs)⟩, ?_⟩
  · refine h.first s ?_
    rw [List.head?_append, Option.mem_def.mp hs]
    rfl
  · rw [expectedCount]
    cases hlast : records.getLast? with
    | none =>
      rw [List.getLast?_eq_none_iff.mp hlast] at h
      exact h.first r rfl
    | some s => exact hjoin s hlast r rfl

/-- The account of a key counts the attempts that have failed in a row. -/
theorem expectedCount_eq (h : RetryLaw limit records) : expectedCount records = failuresInARow records := by
  induction records using List.reverseRecOn with
  | nil => rfl
  | append_singleton records r ih =>
    obtain ⟨hrecords, hcount⟩ := h.of_concat
    rw [expectedCount_concat, failuresInARow_concat, Record.nextRetryCount, ← ih hrecords, ← hcount]
    cases r.outcome <;> rfl

end RetryLaw

variable {setup : Setup} {clocks : Clocks} {p q : Pool} {i : Nat} {key : Key} {log later : Log} {deadline : Moment}
  {notices : List Notice} {a : Attempt} {d : Span} {e : String} {f : Nat}

/-! ## Waiting

The invariant is `Standing.PutOff`. It is kept until a timer puts the key in, and the timer does so
at the deadline or later; so the log of a path tells that the key has waited
(`Standing.PutOff.of_path`). -/

/-- The key is put off until a deadline: no timer puts it in earlier, and it does not wait in the
queue. If it is held, its holder is going to give it back unmarked. -/
structure Standing.PutOff (key : Key) (deadline : Moment) (s : Standing) : Prop where
  /-- its timer, if there is one, does not go off earlier -/
  timer : ∀ m, s.delayed = some m → deadline ≤ m
  /-- it rests, or its last attempt is about to be closed, and it has not come again -/
  place : s.place = .resting ∨ (∃ a d e, s.place = .held (.settled a d (.failure e)) false) ∨
    s.place = .held (.releasing key) false

/-- A key that is put off stays so until its timer puts it in. -/
theorem Standing.PutOff.step {s t : Standing} {o : Option Notice} (h : s.PutOff key deadline)
    (hs : Standing.Step setup key clocks s o t) (hn : ∀ kind, o ≠ some (.accepted key kind)) :
    t.PutOff key deadline ∧ o ≠ some (.began key) ∨ o = some (.released key) ∧ deadline ≤ clocks.now := by
  obtain ⟨htimer, hplace⟩ := h
  cases hs with
  | accept => exact absurd rfl (hn _)
  | fire _ hm hle => exact .inr ⟨rfl, Nat.le_trans (htimer _ hm) hle⟩
  | deliver hp | begin hp | succeed hp | fail hp | drop hp | keep hp | retryAtOnce hp | retryCovered hp
  | retryLater hp | retryCancelled hp =>
    rw [hp] at hplace
    rcases hplace with hplace | ⟨_, _, _, hplace⟩ | hplace <;> cases hplace
  | record hp =>
    rw [hp] at hplace
    rcases hplace with hplace | ⟨_, _, _, hplace⟩ | hplace <;> cases hplace
    exact .inl ⟨⟨htimer, .inr (.inr rfl)⟩, by simp⟩
  | release hp =>
    rw [hp] at hplace
    rcases hplace with hplace | ⟨_, _, _, hplace⟩ | hplace <;> cases hplace
    exact .inl ⟨⟨htimer, .inl rfl⟩, by simp⟩
  | shut => exact .inl ⟨⟨by simp, hplace⟩, by simp⟩
  | refuse | abandon | forget => exact .inl ⟨⟨htimer, hplace⟩, by simp⟩

/-- No attempt of a key that is put off begins but after its timer has put it in, and the timer does
so at the deadline or later. -/
theorem Standing.PutOff.of_path {s t : Standing} (hs : s.PutOff key deadline) (h : Standing.Path setup key s log t)
    (hn : ∀ m kind, (m, .accepted key kind) ∉ log) :
    t.PutOff key deadline ∧ (∀ m, (m, .began key) ∉ log) ∨
      ∃ earlier m later, log = earlier ++ (m, .released key) :: later ∧ deadline ≤ m ∧
        ∀ m, (m, .began key) ∉ earlier := by
  induction h with
  | refl => exact .inl ⟨hs, by simp⟩
  | @step log s t clocks o _ hstep ih =>
    rcases ih fun m kind hmem => hn m kind (List.mem_append_left _ hmem) with ⟨hput, hnone⟩ | hput
    · have haccepted : ∀ kind, o ≠ some (.accepted key kind) := by
        rintro kind rfl
        exact hn clocks.now kind (by simp)
      rcases hput.step hstep haccepted with ⟨hput, ho⟩ | ⟨rfl, hle⟩
      · refine .inl ⟨hput, fun m hmem => ?_⟩
        rcases List.mem_append.mp hmem with hmem | hmem
        · exact hnone m hmem
        · obtain ⟨n, hn', heq⟩ := List.mem_map.mp hmem
          cases heq
          exact ho (Option.mem_toList.mp hn')
      · exact .inr ⟨log, clocks.now, [], rfl, hle, hnone⟩
    · obtain ⟨earlier, m, later, rfl, hle, hnone⟩ := hput
      exact .inr ⟨earlier, m, later ++ o.toList.map (clocks.now, ·), by simp, hle, hnone⟩

/-- A key that is put off until a deadline waits until then, whatever happens to the pool
meanwhile. -/
theorem waitsUntil_of_putOff (h : q.Sound setup) (hs : (q.standing key).PutOff key deadline) (now : Moment) :
    WaitsUntil setup now deadline q key := by
  intro steps r log horder _ hrun hn t hmem
  have hbegan : (t, .began key) ∈ about key log := List.mem_filter.mpr ⟨hmem, by simp [Notice.concerns]⟩
  have hsorted : (about key log).Pairwise fun e e' => e.1 ≤ e'.1 := (pairwise_log horder hrun).filter _
  rcases hs.of_path (path_of_run h hrun key) fun m kind hacc => hn m kind (List.mem_filter.mp hacc).1 with
    ⟨-, hnone⟩ | ⟨earlier, m, later, heq, hle, hnone⟩
  · exact absurd hbegan (hnone t)
  · rw [heq] at hbegan hsorted
    have hlater : (t, .began key) ∈ later := by simpa [hnone t] using hbegan
    obtain ⟨-, hafter, -⟩ := List.pairwise_append.mp hsorted
    exact Nat.le_trans hle ((List.pairwise_cons.mp hafter).1 _ hlater)

theorem waitsUntil_now (setup : Setup) (now : Moment) (q : Pool) (key : Key) : WaitsUntil setup now now q key := by
  intro steps r log _ hnow hrun _ t hmem
  obtain ⟨s, hs, ht⟩ := exists_step_of_mem_log hrun hmem
  exact (hnow s hs).trans_eq ht.symm

/-! ## Cutting the wait short

Two runs attempt the key too early: if it is marked, its worker gives it back and it is taken again;
if a timer goes off before the deadline, the key is put in then. As for a key that should stay
quiet, they are built with `Drives`. -/

/-- A key does not wait if some steps lead to an attempt of it before the deadline and nobody
triggers a key meanwhile. -/
theorem not_waitsUntil_of_drives {now : Moment} (hnow : now ≤ clocks.now) (hlt : clocks.now < deadline)
    (h : Drives setup clocks p q log) (hbegan : (clocks.now, .began key) ∈ log) :
    ¬WaitsUntil setup now deadline p key := by
  intro hwaits
  obtain ⟨⟨actions, hrun⟩, hnone⟩ := h
  refine Nat.not_le_of_lt hlt (hwaits (allAt clocks actions) q log (inOrder_allAt clocks actions) ?_ hrun
    (fun t kind => hnone t key kind) clocks.now hbegan)
  intro s hs
  obtain ⟨a, -, rfl⟩ := List.mem_map.mp hs
  exact hnow

/-- A worker whose attempt has been settled may record it. -/
theorem drive_record (setup : Setup) (clocks : Clocks) {o : Outcome} (hw : p.workers[i]? = some (.settled a d o)) :
    Drives setup clocks p ((p.record fun id => a.record id d o).moveTo i (.releasing a.key))
      [(clocks.now, .recorded (a.record (Uuid.ofAttempt p.recordCount) d o))] := by
  have hact : p.act setup clocks (.work i) = some ((p.record fun id => a.record id d o).moveTo i (.releasing a.key),
      [.recorded (a.record (Uuid.ofAttempt p.recordCount) d o)]) := by
    simp only [act, work, hw]
    rfl
  exact .single hact (by simp)

/-- A key that is marked when its attempt has failed is tried again at once. -/
theorem Sound.not_waitsUntil_of_marked (h : q.Sound setup) {o : Outcome} {now : Moment}
    (hw : q.workers[i]? = some (.settled a d o)) (hmarked : a.key ∈ q.queue.dirty) (hlt : now < deadline) :
    ¬WaitsUntil setup now deadline q a.key := by
  have hrecord := drive_record setup ⟨now, .epoch⟩ hw
  have hsound := run_keeps (Sound setup) sound_of_act h hrecord.1.choose_spec
  obtain ⟨r, log, hdrive, hbegan⟩ := hsound.drive_marked ⟨now, .epoch⟩ (getElem?_moveTo hw _) hmarked
  exact not_waitsUntil_of_drives (Nat.le_refl _) hlt (hrecord.trans hdrive) (List.mem_append_right _ hbegan)

/-- A timer that goes off before the deadline puts the key in too early. -/
theorem Sound.not_waitsUntil_of_delayed (h : q.Sound setup) {o : Outcome} {now m : Moment}
    (hw : q.workers[i]? = some (.settled a d o)) (hm : q.queue.delayed[a.key]? = some m) (hnow : now < deadline)
    (hlt : m < deadline) : ¬WaitsUntil setup now deadline q a.key := by
  have hrecord := drive_record setup ⟨max now m, .epoch⟩ hw
  have hsound := run_keeps (Sound setup) sound_of_act h hrecord.1.choose_spec
  obtain ⟨r, log, hdrive, hbegan⟩ :=
    hsound.drive_delayed ⟨max now m, .epoch⟩ (getElem?_moveTo hw _) hm (Nat.le_max_right _ _)
  exact not_waitsUntil_of_drives (Nat.le_max_left _ _) (Nat.max_lt.mpr ⟨hnow, hlt⟩) (hrecord.trans hdrive)
    (List.mem_append_right _ hbegan)

/-! ## The condition

A policy that asks for no delay promises nothing. Otherwise, when the worker has handled the
failure, the key is marked if it was before, and delayed until the earlier of the deadline that the
policy asks for and the one that was noted already (`retried_of_act`). So what stood there before
tells whether the key waits. -/

/-- A failure that is to be repeated leaves the key marked if it was, and a timer that does not go
off later than the policy says. -/
theorem retried_of_act (hw : p.workers[i]? = some (.retrying a d e f))
    (hact : p.act setup clocks (.work i) = some (q, notices)) (hq : q.workers[i]? = some (.settled a d (.failure e)))
    (hd : (setup.backoff.delay f).nanos ≠ 0) :
    q.queue.dirty = p.queue.dirty ∧
      ∃ m, q.queue.delayed[a.key]? = some m ∧ m ≤ clocks.now + (setup.backoff.delay f).nanos ∧
        (m = clocks.now + (setup.backoff.delay f).nanos ∨ p.queue.delayed[a.key]? = some m) ∧
        ∀ m', p.queue.delayed[a.key]? = some m' → m ≤ m' := by
  cases step_of_act hact with
  | retriedAtOnce hw' _ hzero =>
    cases hw.symm.trans hw'
    exact absurd hzero hd
  | retryCovered hw' _ _ hm hle =>
    cases hw.symm.trans hw'
    refine ⟨rfl, _, hm, hle, .inr hm, fun m' hm' => ?_⟩
    cases hm.symm.trans hm'
    exact Nat.le_refl _
  | retryDelayed hw' _ _ hm =>
    cases hw.symm.trans hw'
    exact ⟨rfl, _, Std.ExtTreeMap.getElem?_insert_self, Nat.le_refl _, .inl rfl, fun m' hm' => Nat.le_of_lt (hm m' hm')⟩
  | retryRefused hw' =>
    cases hw.symm.trans hw'
    cases hq.symm.trans (getElem?_moveTo hw _)
  | took hw' | left hw' | waited hw' | released hw' | began hw' | dropped hw' | kept hw' | recorded hw' =>
    cases hw.symm.trans hw'

/-- **When a failed key waits as long as the policy says**: let an attempt be delivered, and the key
not be triggered since; when its failure is handled and it is to be repeated, this is the failure
whose number the policy is asked for; and the next attempt begins no earlier than the policy says
from then on exactly if the policy asks for no delay, or no timer of an earlier retry is left over
that goes off before, and none went off since the delivery. -/
theorem waits_for_backoff_iff {capacity : Nat} {steps : List (Clocks × Action)} {before since : Log} {t : Moment}
    {kind : Trigger}
    (h : run setup (fresh capacity) steps = some (p, before ++ (t, .delivered a.key kind) :: since))
    (hsince : ∀ t kind, (t, .accepted a.key kind) ∉ since ∧ (t, .delivered a.key kind) ∉ since)
    (hw : p.workers[i]? = some (.retrying a d e f)) (hact : p.act setup clocks (.work i) = some (q, notices))
    (hq : q.workers[i]? = some (.settled a d (.failure e))) :
    f = failuresInARow (recordsOf a.key (before ++ (t, .delivered a.key kind) :: since)) + 1 ∧
      (WaitsUntil setup clocks.now (clocks.now + (setup.backoff.delay f).nanos) q a.key ↔
        (setup.backoff.delay f).nanos = 0 ∨
          (∀ m, p.queue.delayed[a.key]? = some m → clocks.now + (setup.backoff.delay f).nanos ≤ m) ∧
            ∀ t, (t, .released a.key) ∉ since) := by
  have hp := sound_of_run h
  have hsound := sound_of_act hp hact
  have hmarked : a.key ∈ p.queue.dirty ↔ ∃ t, (t, .released a.key) ∈ since :=
    mem_dirty_iff_released h hsince hw rfl rfl
  constructor
  · -- the number that the policy is asked for is that of the account, which counts the failures in a row
    have htally := tally_of_run h a.key
    obtain ⟨-, hf, -⟩ := htally.stage (hp.place_of_holder hw rfl)
    rw [hf, htally.law.expectedCount_eq]
  · by_cases hd : (setup.backoff.delay f).nanos = 0
    · rw [hd]
      exact iff_of_true (waitsUntil_now setup clocks.now q a.key) (.inl rfl)
    · obtain ⟨hdirty, m, hm, hle, hor, hleast⟩ := retried_of_act hw hact hq hd
      have hlt : clocks.now < clocks.now + (setup.backoff.delay f).nanos :=
        Nat.lt_add_of_pos_right (Nat.pos_of_ne_zero hd)
      -- if a timer goes off too early, or has gone off, the key is attempted too early; else it is put off
      rw [or_iff_right hd]
      constructor
      · intro hwaits
        constructor
        · intro m' hm'
          by_contra hearly
          have hmlt : m < clocks.now + (setup.backoff.delay f).nanos :=
            Nat.lt_of_le_of_lt (hleast m' hm') (Nat.lt_of_not_le hearly)
          exact hsound.not_waitsUntil_of_delayed hq hm hlt hmlt hwaits
        · intro t hmem
          exact hsound.not_waitsUntil_of_marked hq (hdirty ▸ hmarked.mpr ⟨t, hmem⟩) hlt hwaits
      · rintro ⟨htimer, hnone⟩
        have hclean : a.key ∉ q.queue.dirty := fun hmem => (hmarked.mp (hdirty ▸ hmem)).elim hnone
        refine waitsUntil_of_putOff hsound ⟨fun m' hm' => ?_, .inr (.inl ⟨a, d, e, ?_⟩)⟩ clocks.now
        · cases hm.symm.trans hm'
          exact hor.elim (fun heq => heq ▸ Nat.le_refl _) (htimer m)
        · exact (hsound.place_of_holder hq rfl).trans (congrArg _ (decide_eq_false hclean))

/-- One worker, five retries, and a tenth of a second before each. -/
def tenthOfASecond : Setup := ⟨1, 5, .fixed (Span.ofMillis 100), none⟩

/-- A key fails, is triggered before its retry is due and fails again; the second failure is still
to be handled. -/
def failedEarly : List (Clocks × Action) :=
  allAt ⟨0, .epoch⟩ [.run, .trigger "a" .manual, .work 0, .work 0, .finish 0 (.failure ⟨"down"⟩), .work 0, .work 0,
    .work 0, .work 0] ++
  allAt ⟨50 * 10 ^ 6, .epoch⟩ [.trigger "a" .manual, .work 0, .work 0, .finish 0 (.failure ⟨"down"⟩), .work 0]

/-- The attempt that failed early. -/
def earlyAttempt : Attempt := ⟨"a", .manual, 1, .epoch, 50 * 10 ^ 6⟩

/-- The timer of the first failure goes off before the second one has been waited for. -/
def attemptedAgain : List (Clocks × Action) :=
  allAt ⟨100 * 10 ^ 6, .epoch⟩ [.work 0, .work 0, .fire "a" (100 * 10 ^ 6), .work 0, .work 0]

/-- What is taken down of it. -/
def seenAgain : Log :=
  [(100 * 10 ^ 6, .recorded (earlyAttempt.record (.ofAttempt 1) Span.zero (.failure "down"))),
    (100 * 10 ^ 6, .released "a"), (100 * 10 ^ 6, .delivered "a" .manual), (100 * 10 ^ 6, .began "a")]

/-- What has come about when the second failure is to be handled: one failure is recorded, its timer
still runs, and the attempt in hand was delivered by a trigger. -/
theorem run_failedEarly :
    ∃ p q r before,
      run tenthOfASecond (fresh 10) failedEarly =
        some (p, before ++ (50 * 10 ^ 6, .delivered "a" .manual) :: [(50 * 10 ^ 6, .began "a")]) ∧
      failuresInARow (recordsOf "a" (before ++ (50 * 10 ^ 6, .delivered "a" .manual) :: [(50 * 10 ^ 6, .began "a")])) =
        1 ∧
      p.workers[0]? = some (.retrying earlyAttempt Span.zero "down" 2) ∧
      p.queue.delayed["a"]? = some (100 * 10 ^ 6) ∧
      p.act tenthOfASecond ⟨50 * 10 ^ 6, .epoch⟩ (.work 0) = some (q, []) ∧
      q.workers[0]? = some (.settled earlyAttempt Span.zero (.failure "down")) ∧
      run tenthOfASecond q attemptedAgain = some (r, seenAgain) := by
  generalize hr : run _ _ _ = c
  have hend : c.map (fun c => (c.2.drop 6, failuresInARow (recordsOf "a" c.2), c.1.workers[0]?,
      c.1.queue.delayed["a"]?)) =
        some ([(50 * 10 ^ 6, .delivered "a" .manual), (50 * 10 ^ 6, .began "a")], 1,
          some (.retrying earlyAttempt Span.zero "down" 2), some (100 * 10 ^ 6)) := by
    rw [← hr]
    decide +kernel
  have hnext : (c.bind fun c => c.1.act tenthOfASecond ⟨50 * 10 ^ 6, .epoch⟩ (.work 0)).map
      (fun c => (c.2, c.1.workers[0]?, (run tenthOfASecond c.1 attemptedAgain).map (·.2))) =
        some ([], some (.settled earlyAttempt Span.zero (.failure "down")), some seenAgain) := by
    rw [← hr]
    decide +kernel
  obtain ⟨⟨p, log⟩, rfl, hlast⟩ := Option.map_eq_some_iff.mp hend
  obtain ⟨⟨q, notices⟩, hact, hq⟩ := Option.map_eq_some_iff.mp hnext
  simp only [Prod.mk.injEq] at hlast hq
  obtain ⟨hdrop, hcount, hw, hdelayed⟩ := hlast
  obtain ⟨rfl, hsettled, hlater⟩ := hq
  obtain ⟨⟨r, later⟩, hlater, rfl⟩ := Option.map_eq_some_iff.mp hlater
  have hlog : log.take 6 ++ (50 * 10 ^ 6, .delivered "a" .manual) :: [(50 * 10 ^ 6, .began "a")] = log := by
    rw [← hdrop]
    exact List.take_append_drop 6 log
  refine ⟨p, q, r, log.take 6, ?_, ?_, hw, hdelayed, hact, hsettled, hlater⟩
  · rw [hlog]
  · rw [hlog, hcount]

/-- The timer of the first failure is sooner, so the second failure is not waited for as long as the
policy says. -/
theorem waits_for_backoff_iff_after_early_trigger :
    ∃ p q before,
      run tenthOfASecond (fresh 10) failedEarly =
        some (p, before ++ (50 * 10 ^ 6, .delivered "a" .manual) :: [(50 * 10 ^ 6, .began "a")]) ∧
      p.act tenthOfASecond ⟨50 * 10 ^ 6, .epoch⟩ (.work 0) = some (q, []) ∧
      q.workers[0]? = some (.settled earlyAttempt Span.zero (.failure "down")) ∧
      p.queue.delayed["a"]? = some (100 * 10 ^ 6) ∧
      ¬WaitsUntil tenthOfASecond (50 * 10 ^ 6) (150 * 10 ^ 6) q "a" := by
  obtain ⟨p, q, r, before, hrun, -, hw, hdelayed, hact, hq, -⟩ := run_failedEarly
  refine ⟨p, q, before, hrun, hact, hq, hdelayed, fun hwaits => ?_⟩
  obtain ⟨-, hiff⟩ := waits_for_backoff_iff hrun (by simp) hw hact hq
  rcases hiff.mp hwaits with hzero | ⟨htimer, -⟩
  · exact absurd hzero (by decide)
  · exact absurd (htimer _ hdelayed) (by decide)

/-- A key that has failed twice in a row is attempted once more before the policy allows it, though
nobody has triggered it since its last delivery: the timer of its first retry goes off. -/
theorem wait_cut_short :
    ¬∀ setup capacity steps p q before t kind since clocks i a d e f notices,
        InOrder (steps ++ [(clocks, .work i)]) →
        run setup (fresh capacity) steps = some (p, before ++ (t, .delivered a.key kind) :: since) →
        (∀ t kind, (t, .accepted a.key kind) ∉ since ∧ (t, .delivered a.key kind) ∉ since) →
        p.workers[i]? = some (.retrying a d e f) → p.act setup clocks (.work i) = some (q, notices) →
        q.workers[i]? = some (.settled a d (.failure e)) →
        WaitsUntil setup clocks.now (clocks.now + (setup.backoff.delay
          (failuresInARow (recordsOf a.key (before ++ (t, .delivered a.key kind) :: since)) + 1)).nanos) q a.key := by
  intro hall
  obtain ⟨p, q, r, before, hrun, hcount, hw, -, hact, hq, hlater⟩ := run_failedEarly
  have horder : InOrder (failedEarly ++ [(⟨50 * 10 ^ 6, .epoch⟩, .work 0)]) := by
    unfold InOrder
    decide
  have hwaits := hall _ _ _ p q before _ _ _ _ _ earlyAttempt _ _ _ _ horder hrun (by simp) hw hact hq
  rw [show earlyAttempt.key = "a" from rfl, hcount] at hwaits
  refine absurd (hwaits _ r _ (inOrder_allAt _ _) (by decide) hlater ?_ (100 * 10 ^ 6) ?_) (by decide)
  · simp [seenAgain]
  · simp [seenAgain]

end ControlLoop.Pool
