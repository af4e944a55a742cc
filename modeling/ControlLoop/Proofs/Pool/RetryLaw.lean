import Mathlib.Data.List.Chain
import ControlLoop.Proofs.Pool.Projection

/-!
# The retry law

How the records of a key follow each other: the first attempt is no retry, a failure raises the
retry count by one, and a success or a drop sets it back; a key is dropped when it fails at the
limit, and before the limit only when the queue is shut. Deliveries come from triggers, from the
resync, from timers of this failure and of earlier ones, and none of them matters: the count that an
attempt is made with is the number of failures in the account of the key, and the account is opened,
raised and closed by the attempts themselves, or by the supervisor when there are no more.

`Tally` ties the account to the last record, at every stage of an attempt.

The law itself knows nothing of pools. `RetryLaw.concat` says when one more record may follow;
`Tally.step` shows that every step of a key makes only such records, stage by stage, and
`records_obey_retry_law` carries this over to runs.
-/

namespace ControlLoop

/-- The retry count of the next attempt, after an attempt with this outcome. -/
def Outcome.nextRetryCount (count : Nat) : Outcome → Nat
  | failure _ => count + 1
  | success | failureFinal _ => 0

/-- The retry count of the next record of the key. -/
def Record.nextRetryCount (r : Record) : Nat := r.outcome.nextRetryCount r.retryCount

namespace Pool

/-- The law by which the records of a key follow each other, oldest first. The first attempt counts
no retries; after a success or a final failure the count begins anew; after a failure it is one
more, and it never goes beyond the limit. -/
structure RetryLaw (limit : Nat) (records : List Record) : Prop where
  /-- the first attempt is no retry -/
  first : ∀ r ∈ records.head?, r.retryCount = 0
  /-- a failure raises the count by one, any other outcome sets it back -/
  next : records.IsChain fun r s => s.retryCount = r.nextRetryCount
  /-- an attempt that will be repeated is below the limit -/
  failure_lt : ∀ r ∈ records, ∀ e, r.outcome = .failure e → r.retryCount < limit
  /-- an attempt that fails at the limit drops the key -/
  final_of_limit : ∀ r ∈ records, r.retryCount = limit → r.outcome ≠ .success → ∃ e, r.outcome = .failureFinal e
  /-- no attempt is above the limit -/
  le_limit : ∀ r ∈ records, r.retryCount ≤ limit

/-- The retry count that the record after these has to have. -/
def expectedCount (records : List Record) : Nat :=
  match records.getLast? with
  | some r => r.nextRetryCount
  | none => 0

/-- The last record decides about the count of the next one. -/
@[simp] theorem expectedCount_concat (records : List Record) (r : Record) :
    expectedCount (records ++ [r]) = r.nextRetryCount := by
  rw [expectedCount, List.getLast?_concat]

namespace RetryLaw

variable {limit : Nat} {records : List Record}

/-- No records obey the law. -/
theorem nil (limit : Nat) : RetryLaw limit [] where
  first := by simp
  next := .nil
  failure_lt := by simp
  final_of_limit := by simp
  le_limit := by simp

/-- The next count does not exceed the limit: the last attempt was below it, or it has set the count
back. -/
theorem expectedCount_le (h : RetryLaw limit records) : expectedCount records ≤ limit := by
  unfold expectedCount
  cases hlast : records.getLast? with
  | none => exact Nat.zero_le _
  | some r =>
    have hmem := List.mem_of_getLast? hlast
    cases ho : r.outcome with
    | failure e =>
      simp only [Record.nextRetryCount, Outcome.nextRetryCount, ho]
      exact h.failure_lt r hmem e ho
    | success | failureFinal => simp [Record.nextRetryCount, Outcome.nextRetryCount, ho]

/-- A record may follow that has the expected count, and is a failure only below the limit. -/
theorem concat (h : RetryLaw limit records) {r : Record} (hcount : r.retryCount = expectedCount records)
    (hlt : ∀ e, r.outcome = .failure e → expectedCount records < limit) : RetryLaw limit (records ++ [r]) where
  first s hs := by
    rw [List.head?_append] at hs
    cases hhead : records.head? with
    | some first =>
      rw [hhead] at hs
      exact h.first s (hhead ▸ hs)
    | none =>
      rw [List.head?_eq_none_iff.mp hhead] at hcount hs
      obtain rfl : r = s := by simpa using hs
      exact hcount
  next := by
    refine h.next.append (.singleton r) fun s hs t ht => ?_
    obtain rfl : r = t := by simpa using ht
    rw [hcount, expectedCount, Option.mem_def.mp hs]
  failure_lt s hs e he := by
    rcases List.mem_append.mp hs with hs | hs
    · exact h.failure_lt s hs e he
    · rw [List.mem_singleton.mp hs] at he ⊢
      exact hcount ▸ hlt e he
  final_of_limit s hs heq hne := by
    rcases List.mem_append.mp hs with hs | hs
    · exact h.final_of_limit s hs heq hne
    · rw [List.mem_singleton.mp hs] at heq hne ⊢
      cases ho : r.outcome with
      | success => exact absurd ho hne
      | failure e => exact absurd (hcount ▸ heq) (Nat.ne_of_lt (hlt e ho))
      | failureFinal e => exact ⟨e, rfl⟩
  le_limit s hs := by
    rcases List.mem_append.mp hs with hs | hs
    · exact h.le_limit s hs
    · rw [List.mem_singleton.mp hs, hcount]
      exact h.expectedCount_le

end RetryLaw

/-! ## The account and the last record

An account is raised when the handler fails, and the record of this failure comes some stages later;
in between the account is ahead of the records. `Stage.Tallied` says at each stage how the count of
the attempt, the failures of the account and the records go together. `Tally.step` goes through what
can happen to a key, and where a record is made its count is the expected one. -/

/-- The count of the attempt and the failures of the account, at each stage of a worker. -/
def Stage.Tallied (limit expected failures : Nat) (closed : Bool) : Stage → Prop
  | asking | holding .. | releasing _ | exited => failures = expected
  | handling a => a.retryCount = expected ∧ failures = expected
  | counting a _ _ f => a.retryCount = expected ∧ f = expected + 1 ∧ failures = f
  | retrying a _ _ f => a.retryCount = expected ∧ f = expected + 1 ∧ failures = f ∧ f ≤ limit
  -- the account is ahead of the records
  | settled a _ o =>
    a.retryCount = expected ∧ failures = o.nextRetryCount expected ∧ (∀ e, o = .failure e → expected < limit) ∧
      ∀ e, o = .failureFinal e → expected < limit → closed = true

/-- The failures of the account agree with the records, wherever the key is; with a worker by
`Stage.Tallied`. -/
def Place.Tallied (limit expected failures : Nat) (closed : Bool) : Place → Prop
  | resting | waiting => failures = expected
  | held stage _ => stage.Tallied limit expected failures closed

/-- A key that no worker holds is tallied by its account alone. -/
theorem Place.tallied_of_free {limit expected failures : Nat} {closed : Bool} {p : Place}
    (hp : ∀ stage again, p ≠ .held stage again) (h : failures = expected) :
    p.Tallied limit expected failures closed := by
  cases p with
  | resting | waiting => exact h
  | held stage again => exact absurd rfl (hp stage again)

/-- Shutting the queue can only be the reason for a drop that had a reason already. -/
theorem Place.tallied_shut {limit expected failures : Nat} {closed : Bool} {p : Place}
    (h : p.Tallied limit expected failures closed) : p.Tallied limit expected failures true := by
  cases p with
  | resting | waiting => exact h
  | held stage again =>
    cases stage with
    | settled a d o =>
      obtain ⟨hcount, hfail, hlt, -⟩ := h
      exact ⟨hcount, hfail, hlt, fun _ _ _ => rfl⟩
    | _ => exact h

/-- The records so far obey the law, and the account agrees with them: it counts the failures since
the last record that is no failure, and the attempt that is made is counted in. -/
structure Tally (limit : Nat) (records : List Record) (s : Standing) : Prop where
  /-- the law -/
  law : RetryLaw limit records
  /-- a key is dropped early only when the queue is shut -/
  closed : ∀ r ∈ records, ∀ e, r.outcome = .failureFinal e → r.retryCount < limit → s.closed = true
  /-- the account -/
  place : s.place.Tallied limit (expectedCount records) s.failures s.closed

namespace Tally

variable {setup : Setup} {key : Key} {clocks : Clocks} {limit : Nat} {records : List Record} {s t : Standing}

theorem untouched (limit : Nat) : Tally limit [] .untouched where
  law := .nil limit
  closed := by simp
  place := rfl

/-- To put a key in changes neither its account nor its records. -/
theorem insert (h : Tally limit records s) :
    s.place.insert.Tallied limit (expectedCount records) s.failures s.closed := by
  have hplace := h.place
  cases hp : s.place with
  | resting | waiting | held =>
    rw [hp] at hplace
    exact hplace

/-- The tally of a key that is held is that of the stage of its holder. -/
theorem stage (h : Tally limit records s) {stage : Stage} {again : Bool} (hp : s.place = .held stage again) :
    stage.Tallied limit (expectedCount records) s.failures s.closed := by
  have hplace := h.place
  rw [hp] at hplace
  exact hplace

/-- Where no record is made, only the account has to be looked at. -/
theorem move (h : Tally limit records s) {o : Option Notice} (ho : ∀ n ∈ o, n.record? = none)
    (hc : t.closed = s.closed) (hp : t.place.Tallied limit (expectedCount records) t.failures s.closed) :
    Tally limit (records ++ (o.toList.filterMap Notice.record?).filter (·.key = key)) t := by
  rw [List.filterMap_eq_nil_iff.mpr fun n hn => ho n (Option.mem_toList.mp hn), List.filter_nil,
    List.append_nil]
  exact ⟨h.law, hc ▸ h.closed, hc ▸ hp⟩

/-- If no worker holds a key, its account has as many failures as the next attempt has to be counted
with. -/
theorem free (h : Tally limit records s) (hp : ∀ stage again, s.place ≠ .held stage again) :
    s.failures = expectedCount records := by
  have hplace := h.place
  cases hs : s.place with
  | resting | waiting =>
    rw [hs] at hplace
    exact hplace
  | held stage again => exact absurd hs (hp stage again)

/-- A record is made of an attempt, or of a key that is closed out. -/
theorem record (h : Tally limit records s) {r : Record} (hcount : r.retryCount = expectedCount records)
    (hlt : ∀ e, r.outcome = .failure e → expectedCount records < limit)
    (hfinal : ∀ e, r.outcome = .failureFinal e → expectedCount records < limit → s.closed = true)
    (hc : t.closed = s.closed) (hp : t.place.Tallied limit r.nextRetryCount t.failures s.closed) :
    Tally limit (records ++ [r]) t where
  law := h.law.concat hcount hlt
  closed q hq e he hl := by
    rw [hc]
    rcases List.mem_append.mp hq with hq | hq
    · exact h.closed q hq e he hl
    · rw [List.mem_singleton.mp hq] at he hl
      exact hfinal e he (hcount ▸ hl)
  place := by
    rw [expectedCount_concat, hc]
    exact hp

theorem filter_record (key : Key) {r : Record} (hk : r.key = key) :
    ((some (Notice.recorded r)).toList.filterMap Notice.record?).filter (·.key = key) = [r] := by
  simp [Notice.record?, hk]

/-- Every step keeps the tally. A failure raises the account, and its record comes later, so in
between the stage of the worker says what is still to be recorded. -/
theorem step {o : Option Notice} (h : Tally setup.retryLimit records s)
    (hs : Standing.Step setup key clocks s o t) :
    Tally setup.retryLimit (records ++ (o.toList.filterMap Notice.record?).filter (·.key = key)) t := by
  cases hs with
  | accept => exact h.move (by simp [Notice.record?]) rfl h.insert
  | fire => exact h.move (by simp [Notice.record?]) rfl h.insert
  | refuse => exact h.move (by simp [Notice.record?]) rfl h.place
  | deliver hp =>
    have hplace := h.place
    rw [hp] at hplace
    exact h.move (by simp [Notice.record?]) rfl hplace
  | begin hp =>
    have hfail := h.stage hp
    exact h.move (by simp [Notice.record?]) rfl ⟨hfail, hfail⟩
  | succeed hp =>
    obtain ⟨hcount, -⟩ := h.stage hp
    exact h.move (by simp) rfl ⟨hcount, rfl, by simp, by simp⟩
  -- a failure is counted one stage ahead of the record
  | fail hp =>
    obtain ⟨hcount, hfail⟩ := h.stage hp
    exact h.move (by simp) rfl ⟨hcount, congrArg (· + 1) hfail, rfl⟩
  | drop hp hf =>
    obtain ⟨hcount, rfl, -⟩ := h.stage hp
    -- the count has reached the limit, so the queue need not be shut
    have hlimit : ¬expectedCount records < setup.retryLimit := Nat.not_lt.mpr (Nat.le_of_lt_succ hf)
    exact h.move (by simp) rfl ⟨hcount, rfl, by simp, fun _ _ hlt => absurd hlt hlimit⟩
  | keep hp hf =>
    obtain ⟨hcount, hf', hfail⟩ := h.stage hp
    exact h.move (by simp) rfl ⟨hcount, hf', hfail, hf⟩
  -- a failure that is forgiven stays in the account, and is recorded with the count from before it
  | retryAtOnce hp | retryCovered hp =>
    obtain ⟨hcount, rfl, hfail, hf⟩ := h.stage hp
    exact h.move (by simp) rfl ⟨hcount, hfail, fun _ _ => hf, by simp⟩
  | retryLater hp =>
    obtain ⟨hcount, rfl, hfail, hf⟩ := h.stage hp
    exact h.move (by simp [Notice.record?]) rfl ⟨hcount, hfail, fun _ _ => hf, by simp⟩
  -- the key is dropped below the limit, but the queue is shut
  | retryCancelled hp hc =>
    obtain ⟨hcount, -⟩ := h.stage hp
    exact h.move (by simp) rfl ⟨hcount, rfl, by simp, fun _ _ _ => hc⟩
  | @record a d o again n hp hk =>
    obtain ⟨hcount, hfail, hlt, hfinal⟩ := h.stage hp
    rw [filter_record key hk]
    refine h.record hcount hlt hfinal rfl ?_
    show s.failures = o.nextRetryCount a.retryCount
    rw [hfail, hcount]
  | release hp =>
    refine h.move (by simp) rfl ?_
    have hfail := h.stage hp
    show Place.Tallied _ _ s.failures _ (if _ then .waiting else .resting)
    split <;> exact hfail
  -- shutting changes the reasons for a drop, and nothing that is counted
  | shut =>
    rw [Option.toList_none, List.filterMap_nil, List.filter_nil, List.append_nil]
    exact ⟨h.law, fun _ _ _ _ _ => rfl, Place.tallied_shut h.place⟩
  -- nobody holds the key, so its account is that of the last record
  | @abandon account n hc hp ha =>
    have hcount : account.failures = expectedCount records := by
      rw [← h.free hp, Standing.failures, ha]
    rw [filter_record key rfl]
    refine h.record hcount (by simp) (fun _ _ _ => hc) rfl ?_
    exact Place.tallied_of_free hp rfl
  | forget => exact h.move (by simp) rfl h.place

/-- Every path keeps the tally. -/
theorem of_path {log : Log} (h : Standing.Path setup key .untouched log t) :
    Tally setup.retryLimit (recordsOf key log) t := by
  induction h with
  | refl => exact untouched _
  | @step log s t clocks o _ hs ih =>
    have hrecords : records (o.toList.map (clocks.now, ·)) = o.toList.filterMap Notice.record? := List.filterMap_map
    rw [recordsOf_append, recordsOf, recordsOf, hrecords]
    exact ih.step hs

end Tally

/-! ## The records are those of the ledger

The log and the ledger of a pool are written by the same steps, a record at a time. -/

variable {setup : Setup} {p q : Pool} {log : Log}

/-- A step gives the ledger the records that it makes, and no step takes one back. -/
theorem ledger_of_act {clocks : Clocks} {a : Action} {notices : List Notice}
    (h : p.act setup clocks a = some (q, notices)) :
    q.ledger = (notices.filterMap Notice.record?).foldl Ledger.record p.ledger := by
  cases step_of_act h with
  | fired => split <;> rfl
  | _ => rfl

/-- The ledger is given the records that the log tells of, in their order, and no others. -/
theorem ledger_of_run {steps : List (Clocks × Action)} (h : run setup p steps = some (q, log)) :
    q.ledger = (records log).foldl Ledger.record p.ledger := by
  induction steps generalizing p log with
  | nil =>
    cases h
    rfl
  | cons step steps ih =>
    obtain ⟨clocks, a⟩ := step
    obtain ⟨p', notices, later, hact, hrun, rfl⟩ := run_cons_eq_some.mp h
    have hrecords : records (notices.map (clocks.now, ·)) = notices.filterMap Notice.record? := List.filterMap_map
    rw [ih hrun, ledger_of_act hact, records_append, List.foldl_append, hrecords]

/-! ## The law

Every key of a run has a path (`path_of_run`), and every path keeps the tally (`Tally.of_path`). The
law is the part of the tally that speaks of records only; that the queue is shut when a key has been
dropped below the limit is read off the tally at the end of each part of the run. -/

/-- Along a run every key of a pool is tallied: its standing is reached by a path, and every path
keeps the tally. -/
theorem tally_of_run {capacity : Nat} {steps : List (Clocks × Action)}
    (h : run setup (fresh capacity) steps = some (p, log)) (key : Key) :
    Tally setup.retryLimit (recordsOf key log) (p.standing key) := by
  have hpath := path_of_run (sound_fresh setup capacity) h key
  rw [standing_fresh] at hpath
  have htally := Tally.of_path hpath
  rwa [recordsOf_about] at htally

/-- **The retry law**: along every run the ledger is given the records of the log, of which it keeps
the newest; those of each key obey the law; and at any moment at which a key has been dropped below
the limit, the queue is shut. -/
theorem records_obey_retry_law {capacity : Nat} {steps : List (Clocks × Action)}
    (h : run setup (fresh capacity) steps = some (p, log)) :
    p.ledger = (records log).foldl Ledger.record (Ledger.empty capacity) ∧
      ∀ key, RetryLaw setup.retryLimit (recordsOf key log) ∧
        ∀ first q earlier, first <+: steps → run setup (fresh capacity) first = some (q, earlier) →
          ∀ r ∈ recordsOf key earlier, ∀ e, r.outcome = .failureFinal e → r.retryCount < setup.retryLimit →
            q.queue.closed = true := by
  refine ⟨ledger_of_run h, fun key => ⟨(tally_of_run h key).law, ?_⟩⟩
  intro first q earlier _ hfirst
  exact (tally_of_run hfirst key).closed

/-- A key fails, fails again at the limit and is dropped; it is triggered once more and fails while
the queue is being shut. -/
theorem records_obey_retry_law_of_drops :
    ∃ p log, run ⟨1, 1, .fixed Span.zero, none⟩ (fresh 10) (allAt ⟨0, .epoch⟩
        [.run, .trigger "a" .manual,
          .work 0, .work 0, .finish 0 (.failure ⟨"down"⟩), .work 0, .work 0, .work 0, .work 0,
          .work 0, .work 0, .finish 0 (.failure ⟨"down"⟩), .work 0, .work 0, .work 0,
          .trigger "a" .manual, .work 0, .work 0, .stop, .supervise, .supervise,
          .finish 0 (.failure ⟨"down"⟩), .work 0, .work 0, .work 0]) = some (p, log) ∧
      (recordsOf "a" log).map (fun r => (r.retryCount, r.outcome)) =
        [(0, .failure "down"), (1, .failureFinal "down"), (0, .failureFinal "down")] ∧
      RetryLaw 1 (recordsOf "a" log) ∧ p.queue.closed = true := by
  generalize hr : run _ _ _ = r
  have hseen : r.map (fun r => (recordsOf "a" r.2).map fun r => (r.retryCount, r.outcome)) =
      some [(0, .failure "down"), (1, .failureFinal "down"), (0, .failureFinal "down")] := by
    rw [← hr]
    decide +kernel
  obtain ⟨⟨p, log⟩, rfl, hmap⟩ := Option.map_eq_some_iff.mp hseen
  obtain ⟨-, hlaws⟩ := records_obey_retry_law hr
  obtain ⟨hlaw, hclosed⟩ := hlaws "a"
  have hlast : (0, Outcome.failureFinal "down") ∈ (recordsOf "a" log).map fun r => (r.retryCount, r.outcome) := by
    rw [hmap]
    simp
  obtain ⟨r, hmem, heq⟩ := List.mem_map.mp hlast
  obtain ⟨hcount, houtcome⟩ := Prod.mk.inj heq
  exact ⟨p, log, rfl, hmap, hlaw, hclosed _ p log (List.prefix_refl _) hr r hmem _ houtcome (by rw [hcount]; decide)⟩

end Pool

end ControlLoop
