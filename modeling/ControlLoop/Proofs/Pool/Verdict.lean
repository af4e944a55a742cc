import ControlLoop.Proofs.Pool.Closing
import ControlLoop.Proofs.Pool.Kinds

/-!
# The last word on a key

What the handler has to say about a key may change while the pool runs, also while an attempt is
under way. Let `verdict` be the error that it has to report now, if any. A key is up to date
(`Place.UpToDate`) if it will be handled again, or if its last word is the verdict: what the handler
said last, be it recorded or still with the worker.

A key that is put in is up to date whatever the verdict is by then, so a change of the verdict does
no harm if the key is put in after it. Nothing but the end of an attempt changes the last word; the
supervisor, who makes records too, only repeats it (`Standing.Quotes`). So as long as each attempt
whose key is not marked ends with the verdict, the key stays up to date (`upToDate_of_act`), and
when the pool has stopped the last record is the verdict (`outcome_of_stopped`).
-/

namespace ControlLoop

namespace Outcome

/-- The error with which the attempt ended. -/
def error? : Outcome → Option String
  | success => none
  | failure e | failureFinal e => some e

/-- How a key is done with. -/
def final : (verdict : Option String) → Outcome
  | none => success
  | some e => failureFinal e

end Outcome

namespace Pool

namespace Place

/-- Will the key be handled again? -/
def isOwed : Place → Bool
  | resting => false
  | waiting | held (.holding ..) _ | held (.handling _) _ => true
  | held _ again => again

/-- What the handler said last, if it has said anything: the error of the attempt. -/
def word? (records : List Record) : Place → Option (Option String)
  | held (.counting _ _ e _) _ | held (.retrying _ _ e _) _ => some (some e)
  | held (.settled _ _ o) _ => some o.error?
  | _ => records.getLast?.map (·.outcome.error?)

/-- The key will be handled again, or the last word on it is the verdict: what the handler said
last, be it recorded or not. -/
def UpToDate (verdict : Option String) (records : List Record) (p : Place) : Prop :=
  p.isOwed = true ∨ p.word? records = some verdict

end Place

/-- An open account quotes the last word, so that a record which closes the account repeats what the
handler has said. -/
def Standing.Quotes (records : List Record) (s : Standing) : Prop :=
  ∀ account, s.account = some account → s.place.word? records = some (some account.lastError)

variable {setup : Setup} {key : Key} {clocks : Clocks} {s t : Standing} {o : Option Notice} {records : List Record}
  {verdict : Option String}

namespace Place

theorem isOwed_insert (p : Place) : p.insert.isOwed = true := by
  cases p with
  | resting | waiting => rfl
  | held stage again => cases stage <;> rfl

theorem isOwed_of_marked (stage : Stage) : (held stage true).isOwed = true := by
  cases stage <;> rfl

theorem word?_insert (records : List Record) (p : Place) : p.insert.word? records = p.word? records := by
  cases p with
  | resting | waiting => rfl
  | held stage again => cases stage <;> rfl

theorem word?_of_free {p : Place} (hp : ∀ stage again, p ≠ .held stage again) (records : List Record) :
    p.word? records = records.getLast?.map (·.outcome.error?) := by
  cases p with
  | resting | waiting => rfl
  | held stage again => exact absurd rfl (hp stage again)

theorem ended?_insert (p : Place) : p.ended? p.insert = none := by
  cases p with
  | resting | waiting => rfl
  | held stage again => cases stage <;> rfl

end Place

/-! ## Steps

What a step makes of the last word and of what is owed. Only one step changes the last word, the end
of the handler, which is therefore left out here (`ended?` is none) and looked at in runs. -/

/-- Only the end of an attempt changes the last word: a record repeats it. -/
theorem word?_of_step (hs : Standing.Step setup key clocks s o t) (hq : s.Quotes records)
    (he : s.place.ended? t.place = none) :
    t.place.word? (records ++ (o.bind Notice.record?).toList) = s.place.word? records := by
  -- a worker that moves on keeps the outcome, and its record says the same
  cases hs with
  | accept | fire =>
    show s.place.insert.word? (records ++ []) = _
    rw [List.append_nil, Place.word?_insert]
  | refuse | shut | forget =>
    show s.place.word? (records ++ []) = _
    rw [List.append_nil]
  | succeed hp | fail hp =>
    rw [hp] at he
    cases he
  | deliver hp | begin hp | drop hp | keep hp | retryAtOnce hp | retryCovered hp | retryLater hp | retryCancelled hp =>
    rw [hp]
    show Place.word? (records ++ []) _ = _
    rw [List.append_nil]
    rfl
  | record hp =>
    rw [hp]
    show (records ++ [_]).getLast?.map _ = _
    rw [List.getLast?_concat]
    rfl
  | @release again hp =>
    rw [hp]
    show Place.word? (records ++ []) _ = _
    rw [List.append_nil]
    cases again <;> rfl
  | abandon hc hp ha =>
    -- the record quotes the account, which quotes the last word
    rw [hq _ ha]
    show s.place.word? (records ++ [_]) = _
    rw [Place.word?_of_free hp, List.getLast?_concat]
    rfl

/-- What will be handled is not forgotten before it has been handled. -/
theorem isOwed_of_step (hs : Standing.Step setup key clocks s o t) (he : s.place.ended? t.place = none)
    (ho : s.place.isOwed = true) : t.place.isOwed = true := by
  cases hs with
  | accept | fire => exact Place.isOwed_insert _
  | refuse | shut | forget | abandon => exact ho
  | deliver | begin | retryAtOnce => rfl
  | succeed hp | fail hp =>
    rw [hp] at he
    cases he
  | drop hp | keep hp | retryCovered hp | retryLater hp | retryCancelled hp | record hp =>
    rw [hp] at ho
    exact ho
  | release hp =>
    rw [hp] at ho
    obtain rfl : _ = true := ho
    rfl

/-- A key that is marked stays so as long as its worker holds it. -/
theorem marked_of_step {s t : Standing} {o : Option Notice} {old new : Stage} {again : Bool}
    (hs : Standing.Step setup key clocks s o t) (hp : s.place = .held old true) (ht : t.place = .held new again) :
    again = true := by
  cases hs with
  | accept | fire =>
    rw [hp] at ht
    cases ht
    rfl
  | refuse | shut | forget | abandon =>
    rw [hp] at ht
    cases ht
    rfl
  | deliver hp' => cases hp.symm.trans hp'
  | retryAtOnce =>
    cases ht
    rfl
  | begin hp' | succeed hp' | fail hp' | drop hp' | keep hp' | retryCovered hp' | retryLater hp' | retryCancelled hp'
  | record hp' =>
    cases hp.symm.trans hp'
    cases ht
    rfl
  | release hp' =>
    cases hp.symm.trans hp'
    cases ht

namespace Standing.Quotes

theorem of_no_account (h : s.account = none) : s.Quotes records := by
  intro account ha
  rw [h] at ha
  cases ha

/-- Every step keeps to what was said. -/
theorem step (hq : s.Quotes records) (hs : Step setup key clocks s o t) :
    t.Quotes (records ++ (o.bind Notice.record?).toList) := by
  have hword := word?_of_step hs hq
  cases hs with
  | succeed | drop | retryCancelled | abandon => exact of_no_account rfl
  | fail =>
    intro account ha
    obtain rfl := Option.some.inj ha
    rfl
  | accept | fire => exact fun account ha => (hword (Place.ended?_insert _)).trans (hq account ha)
  | refuse | shut | forget => exact fun account ha => (hword (Place.ended?_self _)).trans (hq account ha)
  | deliver hp | begin hp | keep hp | retryAtOnce hp | retryCovered hp | retryLater hp | record hp | release hp =>
    exact fun account ha => (hword (by rw [hp]; rfl)).trans (hq account ha)

end Standing.Quotes

namespace Place.UpToDate

theorem insert (p : Place) (verdict : Option String) (records : List Record) : p.insert.UpToDate verdict records :=
  .inl (isOwed_insert p)

/-- While the handler does not end on the key, every step keeps it up to date. -/
theorem step (h : s.place.UpToDate verdict records) (hs : Standing.Step setup key clocks s o t)
    (hq : s.Quotes records) (he : s.place.ended? t.place = none) :
    t.place.UpToDate verdict (records ++ (o.bind Notice.record?).toList) := by
  rcases h with ho | hw
  · exact .inl (isOwed_of_step hs he ho)
  · exact .inr ((word?_of_step hs hq he).trans hw)

/-- A turn of the pool keeps a key up to date, with the part of the log that is about the key. -/
theorem turn {log : Log} {notices : List Notice} (h : s.place.UpToDate verdict (recordsOf key log))
    (hs : Standing.Turn setup key clocks s notices t) (hq : s.Quotes (recordsOf key log))
    (he : s.place.ended? t.place = none) :
    t.place.UpToDate verdict (recordsOf key (log ++ notices.map (clocks.now, ·))) := by
  rw [recordsOf_append]
  cases hs with
  | idle => simpa [recordsOf, records] using h
  | step hs =>
    rw [recordsOf_toList hs.concerns]
    exact h.step hs hq he

end Place.UpToDate

/-! ## Runs

Here the end of the handler comes in: it says the verdict, unless the key is marked and will be
handled again. With the clauses above this keeps the key up to date in every step of a pool. -/

variable {p q : Pool} {a : Action} {notices : List Notice} {log : Log}

/-- Along every run the accounts quote what the handler said last. -/
theorem quotes_of_run {capacity : Nat} {steps : List (Clocks × Action)}
    (h : run setup (fresh capacity) steps = some (p, log)) (key : Key) :
    (p.standing key).Quotes (recordsOf key log) := by
  have hpath := path_of_run (sound_fresh setup capacity) h key
  rw [standing_fresh] at hpath
  rw [← recordsOf_about]
  generalize about key log = mine, p.standing key = s at hpath
  induction hpath with
  | refl => exact .of_no_account rfl
  | step _ hs ih =>
    rw [recordsOf_append, recordsOf_toList hs.concerns]
    exact ih.step hs

/-- A key on which the handler runs stays marked. -/
theorem mem_dirty_of_act {i : Nat} {b : Attempt} (hp : p.Sound setup) (hact : p.act setup clocks a = some (q, notices))
    (hw : p.workers[i]? = some (.handling b)) (hw' : q.workers[i]? = some (.handling b)) (hd : b.key ∈ p.queue.dirty) :
    b.key ∈ q.queue.dirty := by
  have hold : (p.standing b.key).place = .held (.handling b) true := by
    have hplace := hp.place_of_holder hw rfl
    rwa [decide_eq_true hd] at hplace
  have hnew : (q.standing b.key).place = .held (.handling b) (b.key ∈ q.queue.dirty) :=
    (sound_of_act hp hact).place_of_holder hw' rfl
  have hturn := turn_of_act hp hact b.key
  generalize p.standing b.key = s, q.standing b.key = t, notices.filter (·.concerns b.key) = mine at hold hnew hturn
  refine of_decide_eq_true ?_
  cases hturn with
  | idle => exact (Place.held.inj (hold.symm.trans hnew)).2.symm
  | step hs => exact marked_of_step hs hold hnew

/-- The handler ends on a key when the worker that holds it says so. -/
theorem finish_of_resultOf {result : Result} (h : p.resultOf key a = some result) :
    ∃ i b, a = .finish i result ∧ p.workers[i]? = some (.handling b) ∧ b.key = key := by
  cases a with
  | finish i res =>
    rw [resultOf] at h
    split at h
    · next b hw =>
      obtain ⟨hk, heq⟩ := Option.ite_none_right_eq_some.mp h
      cases heq
      exact ⟨i, b, rfl, hw, hk⟩
    · cases h
  | _ => cases h

/-- When the handler ends, the last word is what it says. -/
theorem word?_of_finish {i : Nat} {b : Attempt} {result : Result} (hp : p.Sound setup)
    (hact : p.act setup clocks (.finish i result) = some (q, notices)) (hw : p.workers[i]? = some (.handling b)) :
    ∃ stage, q.place b.key = .held stage (b.key ∈ p.queue.dirty) ∧
      ∀ records again, Place.word? records (.held stage again) = some result.error? := by
  have hq := sound_of_act hp hact
  cases step_of_act hact with
  | succeeded hw' hr =>
    cases hw.symm.trans hw'
    refine ⟨_, hq.place_of_holder (getElem?_moveTo hw _) rfl, fun _ _ => ?_⟩
    rw [hr]
    rfl
  | failed hw' hr =>
    cases hw.symm.trans hw'
    refine ⟨_, hq.place_of_holder (getElem?_moveTo hw _) rfl, fun _ _ => ?_⟩
    rw [hr]
    rfl

/-- If the handler, where it ends on a key that is not marked, ends with the verdict, then a step
keeps the key up to date. -/
theorem upToDate_of_act (hp : p.Sound setup) (hact : p.act setup clocks a = some (q, notices))
    (hq : (p.standing key).Quotes (recordsOf key log)) (h : (p.place key).UpToDate verdict (recordsOf key log))
    (hend : ∀ i b result, a = .finish i result → p.workers[i]? = some (.handling b) → b.key = key →
      key ∉ p.queue.dirty → result.error? = verdict) :
    (q.place key).UpToDate verdict (recordsOf key (log ++ notices.map (clocks.now, ·))) := by
  cases he : (p.place key).ended? (q.place key) with
  | none =>
    have hkept := Place.UpToDate.turn h (turn_of_act hp hact key) hq he
    rwa [recordsOf_append, ← about_map, recordsOf_about, ← recordsOf_append] at hkept
  | some failed =>
    rw [← ended_of_act hp hact key] at he
    obtain ⟨result, hresult, -⟩ := Option.map_eq_some_iff.mp he
    obtain ⟨i, b, rfl, hw, rfl⟩ := finish_of_resultOf hresult
    obtain ⟨stage, hplace, hword⟩ := word?_of_finish hp hact hw
    rw [hplace]
    by_cases hd : b.key ∈ p.queue.dirty
    · left
      rw [decide_eq_true hd]
      exact Place.isOwed_of_marked stage
    · right
      rw [hword, hend i b result rfl hw rfl hd]

/-- When a pool has stopped, the last record of a key that is up to date is the verdict. -/
theorem outcome_of_stopped {capacity : Nat} {steps : List (Clocks × Action)} (hw : 1 ≤ setup.workers)
    (h : run setup (fresh capacity) steps = some (p, log)) (hs : p.phase = .stopped)
    (hu : (p.place key).UpToDate verdict (recordsOf key log)) :
    ∃ r, (recordsOf key log).getLast? = some r ∧ r.outcome = .final verdict := by
  have hp := sound_of_run h
  have hrest := hp.resting_of_stopped hw hs key
  rw [hrest] at hu
  rcases hu with ho | hword
  · cases ho
  · obtain ⟨r, hr, hverdict⟩ := Option.map_eq_some_iff.mp hword
    refine ⟨r, hr, ?_⟩
    -- no account is open, so it cannot be a failure that another attempt follows
    have hcount : expectedCount (recordsOf key log) = 0 := by
      rw [← (tally_of_run h key).free (by rw [standing, hrest]; simp), Standing.failures, standing,
        (minded_of_run h).account_eq_none_of_stopped hp hw hs key]
    subst hverdict
    rcases outcome_of_expectedCount hcount hr with ho | ⟨e, ho⟩ <;> rw [ho] <;> rfl

end Pool

end ControlLoop
