import ControlLoop.Proofs.Pool.Isolated

/-!
# When a failed key is tried again

A key that is triggered once comes to wait once more for each failure that is not final, and nothing
hurries it or holds it up: if a timer goes off when it is due, and the clock stands still while a
worker has only to finish with the key, it comes to wait exactly when the policy says
(`Story.Timed`). Together with what is known of the records of such a key this is its whole course
(`isolated_key_course`).

The hypotheses about time are two, and both are about this key only: its timers go off when they are
due (`OnTime`), and the clock does not move while a worker has ended an attempt of it and not yet
given it back (`VirtualTime`). Nothing is asked of other keys, other workers or the resync.
-/

namespace ControlLoop.Pool

/-! ## Time

A run says of each step what the clock shows. In virtual time the clock moves only while nobody has
anything to do, so it stands still from the end of a handler until the worker has given the key
back. `moments` notes of each step whether it is taken in such a stretch. -/

/-- The moments of the steps, each with whether the handler has ended on the key and the key is
still held. -/
def moments (setup : Setup) (key : Key) : Pool → List (Clocks × Action) → List (Moment × Bool) :=
  along setup fun clocks _ _ q => some (clocks.now, (q.place key).isPast)

/-- In virtual time a worker takes no time but for the handler. For a key it is enough that the
clock stands still from the end of the handler until the key is given back, since a delay is set and
a mark is made in between. -/
def VirtualTime (setup : Setup) (key : Key) (p : Pool) (steps : List (Clocks × Action)) : Prop :=
  (moments setup key p steps).IsChain fun before after => before.2 = true → after.1 = before.1

/-- The timers of the key go off at their deadlines: none of them early, which the pool sees to
itself, and none of them late. -/
def OnTime (key : Key) (steps : List (Clocks × Action)) : Prop :=
  ∀ clocks m, (clocks, .fire key m) ∈ steps → clocks.now = m

/-- The moment of the last step. -/
def lastMoment (steps : List (Clocks × Action)) : Moment := (steps.getLast?.map (·.1.now)).getD 0

variable {setup : Setup} {capacity : Nat} {key : Key} {kind : Trigger} {clocks : Clocks} {p q : Pool} {a : Action}
  {notices : List Notice} {log : Log} {steps : List (Clocks × Action)}

/-- The last of the moments is that of the last step, and tells where the key was after it. -/
theorem getLast?_moments (key : Key) (h : run setup p steps = some (q, log)) :
    (moments setup key p steps).getLast? = steps.getLast?.map fun step => (step.1.now, (q.place key).isPast) := by
  rcases List.eq_nil_or_concat steps with rfl | ⟨earlier, ⟨clocks, a⟩, rfl⟩
  · rfl
  · rw [List.concat_eq_append] at h ⊢
    obtain ⟨q', log', notices, hrun, hact, -⟩ := run_concat_eq_some.mp h
    rw [moments, along_concat _ hrun hact]
    simp

/-- If the handler has ended and the key is still held, the next step is taken at the same
moment. -/
theorem VirtualTime.of_concat (hv : VirtualTime setup key (fresh capacity) (steps ++ [(clocks, a)]))
    (hrun : run setup (fresh capacity) steps = some (q, log)) (hact : q.act setup clocks a = some (p, notices)) :
    VirtualTime setup key (fresh capacity) steps ∧ ((q.place key).isPast = true → clocks.now = lastMoment steps) := by
  rw [VirtualTime, moments, along_concat _ hrun hact, List.isChain_append] at hv
  obtain ⟨hearlier, -, hnext⟩ := hv
  refine ⟨hearlier, fun hp => ?_⟩
  have hlast := getLast?_moments key hrun
  cases hs : steps.getLast? with
  | none =>
    rw [List.getLast?_eq_none_iff.mp hs] at hrun
    cases hrun
    rw [place_fresh] at hp
    cases hp
  | some step =>
    rw [hs, hp] at hlast
    exact (hnext _ hlast _ rfl rfl).trans (by simp [lastMoment, hs])

/-- Only its timer puts a key in after a delay. -/
theorem fire_of_released (hact : p.act setup clocks a = some (q, notices)) (hn : .released key ∈ notices) :
    ∃ m, a = .fire key m ∧ p.queue.delayed[key]? = some m := by
  cases step_of_act hact with
  | fired ht hm hle =>
    split at hn
    · simp at hn
    · obtain rfl : key = _ := by simpa using hn
      exact ⟨_, rfl, hm⟩
  | _ => simp at hn

/-! ## The entries of an isolated key

`Story.Timed` compares the moments at which the key came to wait with those at which its retries are
due. Without a delay the key is marked, and comes to wait when it is given back, at the same moment
because time stands still until then. With a delay a timer is set, and the key comes to wait when it
goes off, which is at its deadline. -/

namespace Story

/-- The story of a key that is triggered once, when time is virtual and its timers are punctual: it
comes to wait by its trigger, and for each retry at the moment which the policy gives
(`Retry.due`). -/
structure Timed (setup : Setup) (now : Moment) (st : Story) (s : Standing) : Prop where
  /-- the key has come to wait when the policy says, each time but the first -/
  entered : st.entries.tail <+: st.retries.map (Retry.due setup)
  /-- a timer runs to when the policy says -/
  timer : ∀ m, s.delayed = some m → ∃ r, st.retries.getLast? = some r ∧ r.due setup = m
  /-- a mark is made when the policy says -/
  marked : ∀ stage, s.place = .held stage true → ∃ r, st.retries.getLast? = some r ∧ r.due setup = now

variable {now : Moment} {triggers : List Trigger} {st : Story} {s t : Standing} {o : Option Notice}

/-- Where all attempts so far are repeated, and the last one has been recorded, each came to wait by
a retry. -/
theorem length_entries {p : Place} (ha : st.Agrees p) (hall : ∀ r ∈ st.records, r.outcome.repeats = true)
    (hp : p.isBack = true) : st.entries.length = st.retries.length := by
  obtain ⟨hends, hretries, hahead⟩ := Place.recorded_of_isBack hp
  calc st.entries.length = st.ends.length := by rw [ha.entries, hahead, Nat.add_zero]
    _ = st.records.length := by rw [ha.ends, hends, List.append_nil, List.length_map]
    _ = (st.retries.map (·.failures)).length := by
      rw [ha.retries, hretries, List.append_nil, filterMap_retry? hall, List.length_map]
    _ = st.retries.length := List.length_map _

/-- The last of these moments has come. -/
theorem tail_concat_prefix {entries dues : List Moment} {m : Moment} (h : entries.tail <+: dues)
    (hlen : entries.length = dues.length) (hlast : dues.getLast? = some m) : (entries ++ [m]).tail <+: dues := by
  obtain ⟨dues, rfl⟩ := List.getLast?_eq_some_iff.mp hlast
  cases entries with
  | nil => simp at hlen
  | cons first rest =>
    have hrest : rest <+: dues := List.prefix_of_prefix_length_le h (List.prefix_append ..) (by simpa using hlen.le)
    rw [hrest.eq_of_length (by simpa using hlen)]
    exact List.prefix_refl _

namespace Timed

theorem untouched (setup : Setup) (now : Moment) : Timed setup now {} .untouched where
  entered := List.prefix_refl _
  timer := by simp [Standing.untouched]
  marked := by simp [Standing.untouched]

/-- Nothing happens to the key. -/
theorem wait {later : Moment} (h : st.Timed setup now s) (hl : st.Lone setup kind triggers s)
    (hnow : s.place.isPast = true → later = now) : st.Timed setup later s where
  entered := h.entered
  timer := h.timer
  marked stage hp := by
    rw [hnow (hl.course.isPast_of_marked hp)]
    exact h.marked stage hp

/-- The last retry is due when the key comes to wait for it. -/
theorem due_of_entered (h : st.Timed setup now s) (hnow : s.place.isPast = true → clocks.now = now)
    (hfire : o = some (.released key) → s.delayed = some clocks.now)
    (hc : o = some (.released key) ∨ ∃ stage, s.place = .held stage true ∧ s.place.isPast = true) :
    ∃ r, st.retries.getLast? = some r ∧ r.due setup = clocks.now := by
  rcases hc with ho | ⟨stage, hp, hpast⟩
  · exact h.timer _ (hfire ho)
  · rw [hnow hpast]
    exact h.marked stage hp

/-- Every step keeps the times of the key: it comes to wait by its trigger, or for a retry that is
due just then. -/
theorem step (h : st.Timed setup now s) (ha : st.Agrees s.place) (hl : st.Lone setup kind triggers s)
    (hs : Standing.Step setup key clocks s o t)
    (hone : triggers ++ (o.bind (·.acceptedFor? key)).toList <+: [kind])
    (hnow : s.place.isPast = true → clocks.now = now)
    (hfire : o = some (.released key) → s.delayed = some clocks.now) :
    (st.grow clocks.now s.place t.place o).Timed setup clocks.now t where
  entered := by
    cases he : s.place.entered? clocks.now t.place with
    | none =>
      simp only [grow, he, Option.toList_none, List.append_nil, List.map_append]
      exact h.entered.trans (List.prefix_append ..)
    | some m =>
      obtain ⟨rfl, ht, hwhy⟩ := hl.course.entered hs (hl.of_accepted hone) he
      rw [ht] at he
      simp only [grow, he, ht, Place.retried?_waiting, Option.toList_none, Option.toList_some, List.append_nil]
      rcases hwhy with ⟨hp, hnil⟩ | ⟨howed, hwhy⟩
      · have hentries : st.entries = [] := by
          have hlen := ha.entries
          rw [ha.ends, hnil, hp] at hlen
          exact List.eq_nil_of_length_eq_zero hlen
        rw [hentries]
        exact List.nil_prefix
      · have hall := hl.series.repeated_of_not_settled (isSettled_eq_false howed)
        have hdue : ∃ r, st.retries.getLast? = some r ∧ r.due setup = clocks.now := by
          refine h.due_of_entered hnow hfire (hwhy.imp (·.2) ?_)
          rintro ⟨k, hp⟩
          exact ⟨_, hp, hl.course.isPast_of_marked hp⟩
        obtain ⟨r, hr, hdue⟩ := hdue
        have hback : s.place.isBack = true := by
          rcases hwhy with ⟨hp, -⟩ | ⟨k, hp⟩ <;> rw [hp] <;> rfl
        refine tail_concat_prefix h.entered ?_ (by rw [List.getLast?_map, hr, Option.map_some, hdue])
        rw [List.length_map]
        exact length_entries ha hall hback
  timer m hm := by
    cases hr : s.place.retried? clocks.now t.place with
    | none =>
      simp only [grow, hr, Option.toList_none, List.append_nil]
      exact h.timer m (hs.delayed_of_not_retried hr hm)
    | some r =>
      simp only [grow, hr, Option.toList_some]
      exact ⟨r, List.getLast?_concat, ((hl.course.retried hs hr).2.2 m hm).symm⟩
  marked stage ht := by
    cases hr : s.place.retried? clocks.now t.place with
    | none =>
      simp only [grow, hr, Option.toList_none, List.append_nil]
      refine h.due_of_entered hnow hfire ?_
      refine (hs.marked_of_not_retried (fun k hk => (hl.of_accepted hone k hk).1) ht hr).imp_right ?_
      rintro ⟨stage', hp⟩
      exact ⟨stage', hp, hl.course.isPast_of_marked hp⟩
    | some r =>
      simp only [grow, hr, Option.toList_some]
      exact ⟨r, List.getLast?_concat, (hl.course.retried hs hr).2.1 (by rw [ht]; rfl)⟩

end Timed

end Story

/-- Along every run that is on time the key is timed. The induction goes along the run, as the clock
and the story are told by all steps, those that leave the key alone included. -/
theorem timed_of_run (h : run setup (fresh capacity) steps = some (p, log)) (hone : triggersOf key log <+: [kind])
    (hopen : OpenUntilSettled setup capacity key steps) (hontime : OnTime key steps)
    (hvirtual : VirtualTime setup key (fresh capacity) steps) :
    (story setup key (fresh capacity) steps log).Timed setup (lastMoment steps) (p.standing key) := by
  induction steps using List.reverseRecOn generalizing p log with
  | nil =>
    cases h
    rw [standing_fresh]
    exact .untouched setup _
  | append_singleton steps step ih =>
    obtain ⟨clocks, a⟩ := step
    obtain ⟨q, earlier, notices, o, hrun, hact, hnotices, hearlier, htriggers, hstory, hstep⟩ := grow_of_run h hone
    have hopen := hopen.of_prefix (List.prefix_append steps [(clocks, a)])
    obtain ⟨hagrees, hlone⟩ := lone_of_run hrun hearlier hopen
    obtain ⟨hvirtual, hnow⟩ := hvirtual.of_concat hrun hact
    have htimed := ih hrun hearlier hopen (fun clocks m hm => hontime clocks m (List.mem_append_left _ hm)) hvirtual
    have hfire : o = some (.released key) → (q.standing key).delayed = some clocks.now := by
      rintro rfl
      have hreleased : .released key ∈ notices.filter (·.concerns key) := by
        rw [hnotices]
        exact List.mem_singleton_self _
      obtain ⟨m, rfl, hm⟩ := fire_of_released hact (List.mem_of_mem_filter hreleased)
      rw [hontime clocks m (by simp)]
      exact hm
    have hlast : lastMoment (steps ++ [(clocks, a)]) = clocks.now := by simp [lastMoment]
    rw [hstory, hlast]
    rcases hstep with hs | ⟨rfl, hs⟩
    · exact htimed.step hagrees hlone hs (htriggers ▸ hone) hnow hfire
    · have hplace : p.place key = q.place key := congrArg Standing.place hs
      rw [hplace, hs, Story.grow_self]
      exact htimed.wait hlone hnow

/-! ## The course

What is known of an isolated key is put into numbers here: how many attempts fail is told by the
results of its handler (`leadingFailures`), and the number of attempts, retries and entries follows
from the series of its records. -/

/-- How many attempts fail before the first success. -/
def leadingFailures (results : List Result) : Nat := (results.takeWhile Result.failed).length

/-- The course of a key that is triggered once, if `failing` of its attempts fail before one
succeeds: how many attempts there are and what they count, how each of them ends and what set it
off, and how often the key comes to wait. -/
structure IsolatedCourse (setup : Setup) (kind : Trigger) (failing : Nat) (records : List Record)
    (retries : List Retry) (entries : List Moment) : Prop where
  /-- there is one attempt more than failures that the limit forgives, and the retries are
  numbered -/
  retryCounts : records.map (·.retryCount) = List.range (min failing setup.retryLimit + 1)
  /-- all attempts but the last are repeated -/
  repeated : ∀ r ∈ records.dropLast, ∃ e, r.outcome = .failure e
  /-- the last one succeeds, or the key is dropped -/
  last : ∃ r, records.getLast? = some r ∧
    if failing ≤ setup.retryLimit then r.outcome = .success else ∃ e, r.outcome = .failureFinal e
  /-- the trigger sets off every attempt -/
  trigger : ∀ r ∈ records, r.trigger = kind
  /-- each failure is followed by the retry of its number -/
  numbered : retries.map (·.failures) = List.range' 1 (min failing setup.retryLimit)
  /-- a key that is tried again without delay is marked, and no other -/
  marked : ∀ r ∈ retries, r.marked = decide ((setup.backoff.delay r.failures).nanos = 0)
  /-- the key comes to wait once for each attempt -/
  entered : entries.length = min failing setup.retryLimit + 1

/-- If all attempts but the last are repeated, the failures before the first success are these
attempts, and the last one if it fails too. -/
theorem leadingFailures_eq {results : List Result} {earlier : List Record} {r : Record}
    (h : results.map Result.failed = (earlier ++ [r]).map (!·.outcome.isSuccess))
    (hall : ∀ r ∈ earlier, r.outcome.repeats = true) :
    leadingFailures results = earlier.length + if r.outcome.isSuccess then 0 else 1 := by
  have hfailed : ∀ b ∈ earlier.map (!·.outcome.isSuccess), id b = true := by
    intro b hb
    obtain ⟨q, hq, rfl⟩ := List.mem_map.mp hb
    obtain ⟨e, he⟩ := Outcome.repeats_eq_true_iff.mp (hall q hq)
    simp [he, Outcome.isSuccess]
  have hmap : leadingFailures results = ((results.map Result.failed).takeWhile id).length := by
    rw [List.takeWhile_map, List.length_map]
    rfl
  rw [hmap, h, List.map_append, List.takeWhile_append_of_pos hfailed, List.length_append, List.length_map]
  cases hr : r.outcome.isSuccess <;> simp [hr]

namespace Series

variable {limit : Nat} {earlier : List Record} {r : Record}

/-- The last attempt succeeds, or it fails at the limit. -/
theorem last (h : Series limit kind (earlier ++ [r])) (hle : r.retryCount ≤ limit) (hs : r.outcome.repeats = false)
    {results : List Result} (hr : results.map Result.failed = (earlier ++ [r]).map (!·.outcome.isSuccess)) :
    min (leadingFailures results) limit = earlier.length ∧
      if leadingFailures results ≤ limit then r.outcome = .success else ∃ e, r.outcome = .failureFinal e := by
  rw [h.counts_concat.2] at hle
  rw [leadingFailures_eq hr h.repeats_of_mem]
  cases ho : r.outcome with
  | success => simp [Outcome.isSuccess, hle]
  | failure e =>
    rw [ho] at hs
    cases hs
  | failureFinal e =>
    have hlimit := h.final r (by simp) e ho
    rw [h.counts_concat.2] at hlimit
    obtain rfl : limit = earlier.length := Nat.le_antisymm hlimit hle
    simp [Outcome.isSuccess]

/-- Each attempt but the last is followed by the retry of its number. -/
theorem retries (h : Series limit kind (earlier ++ [r])) (hs : r.outcome.repeats = false) :
    (earlier ++ [r]).filterMap Record.retry? = List.range' 1 earlier.length := by
  have hnone : r.retry? = none := by
    cases ho : r.outcome with
    | success | failureFinal => rw [Record.retry?, ho, Outcome.retry?]
    | failure e =>
      rw [ho] at hs
      cases hs
  calc (earlier ++ [r]).filterMap Record.retry? = earlier.map (·.retryCount + 1) := by
        rw [List.filterMap_append, filterMap_retry? h.repeats_of_mem, List.filterMap_cons_none hnone,
          List.filterMap_nil, List.append_nil]
    _ = (earlier.map (·.retryCount)).map (· + 1) := (List.map_map ..).symm
    _ = List.range' 1 earlier.length := by
      rw [h.counts_concat.1, List.range'_eq_map_range]
      simp only [Nat.add_comm]

end Series

/-- A key that has settled has gone through the whole course. -/
theorem Story.Lone.isolatedCourse {triggers : List Trigger} {st : Story} {s : Standing} {results : List Result}
    (h : st.Lone setup kind triggers s) (ha : st.Agrees s.place) (hlaw : RetryLaw setup.retryLimit st.records)
    (hs : isSettled st.records = true) (hr : results.map Result.failed = st.ends) :
    IsolatedCourse setup kind (leadingFailures results) st.records st.retries st.entries := by
  obtain ⟨hends, hretry, hahead⟩ := Place.recorded_of_isBack (h.course.of_settled hs).2
  have hseries := h.series
  have hretries := ha.retries
  have hentries := ha.entries
  rw [ha.ends, hends, List.append_nil] at hr hentries
  rw [hretry, List.append_nil] at hretries
  rw [hahead, Nat.add_zero, List.length_map] at hentries
  generalize st.records = records at *
  rcases List.eq_nil_or_concat records with rfl | ⟨earlier, r, rfl⟩
  · cases hs
  · rw [List.concat_eq_append] at *
    rw [isSettled_concat, Bool.not_eq_true'] at hs
    obtain ⟨hmin, hlast⟩ := hseries.last (hlaw.le_limit r (by simp)) hs hr
    exact {
      retryCounts := by simpa [hmin] using hseries.counts
      repeated := by
        rw [List.dropLast_concat]
        exact fun q hq => Outcome.repeats_eq_true_iff.mp (hseries.repeats_of_mem q hq)
      last := ⟨r, List.getLast?_concat, hlast⟩
      trigger := hseries.trigger
      numbered := by rw [hmin, hretries, hseries.retries hs]
      marked := h.marked
      entered := by simpa [hmin] using hentries }

/-- **The course of an isolated key**: a key that is triggered once is tried until an attempt
succeeds or one more has failed than the limit forgives; and in virtual time it comes to wait for
each retry exactly when the policy says, if its timers go off at their deadlines. -/
theorem isolated_key_course (h : run setup (fresh capacity) steps = some (p, log))
    (hone : triggersOf key log = [kind]) (hopen : OpenUntilSettled setup capacity key steps)
    (hsettled : isSettled (recordsOf key log) = true) :
    IsolatedCourse setup kind (leadingFailures (results setup key (fresh capacity) steps)) (recordsOf key log)
        (retries setup key (fresh capacity) steps) (entries setup key (fresh capacity) steps) ∧
      (OnTime key steps → VirtualTime setup key (fresh capacity) steps →
        (entries setup key (fresh capacity) steps).tail = (retries setup key (fresh capacity) steps).map
          fun r => r.moment + (setup.backoff.delay r.failures).nanos) := by
  have hone : triggersOf key log <+: [kind] := hone ▸ List.prefix_refl _
  obtain ⟨hagrees, hlone⟩ := lone_of_run h hone hopen
  have hcourse : IsolatedCourse setup kind (leadingFailures (results setup key (fresh capacity) steps))
      (recordsOf key log) (retries setup key (fresh capacity) steps) (entries setup key (fresh capacity) steps) :=
    hlone.isolatedCourse hagrees (tally_of_run h key).law hsettled rfl
  refine ⟨hcourse, fun hontime hvirtual => ?_⟩
  refine (timed_of_run h hone hopen hontime hvirtual).entered.eq_of_length ?_
  have hretries := congrArg List.length hcourse.numbered
  rw [List.length_map, List.length_range'] at hretries
  show (entries setup key (fresh capacity) steps).tail.length = _
  rw [List.length_tail, hcourse.entered, List.length_map]
  exact hretries.symm

/-- A key fails and is tried again at once; it fails again, and the second retry is put off; the
third attempt, by another worker, succeeds. Another key is handled meanwhile. -/
theorem isolated_key_course_of_two_failures :
    ∃ (setup : Setup) (steps : List (Clocks × Action)) (p : Pool) (log : Log),
      run setup (fresh 10) steps = some (p, log) ∧ triggersOf "a" log = [.manual] ∧ (recordsOf "b" log).length = 1 ∧
      IsolatedCourse setup .manual 2 (recordsOf "a" log) (retries setup "a" (fresh 10) steps)
        (entries setup "a" (fresh 10) steps) ∧
      (retries setup "a" (fresh 10) steps).map (fun r => r.moment + (setup.backoff.delay r.failures).nanos) =
        [5, 7 + 10 ^ 8] ∧
      (entries setup "a" (fresh 10) steps).tail = [5, 7 + 10 ^ 8] := by
  let setup : Setup := ⟨2, 2, .custom fun n => if n = 1 then Span.zero else Span.ofMillis 100, none⟩
  let steps : List (Clocks × Action) :=
    allAt ⟨0, .epoch⟩ [.run, .trigger "a" .manual, .trigger "b" .auto, .work 0, .work 1, .work 0, .work 1] ++
    allAt ⟨5, .epoch⟩ [.finish 0 (.failure ⟨"down"⟩), .work 0, .work 0, .work 0, .work 0,
      .finish 1 .success, .work 1, .work 1, .work 0, .work 0] ++
    allAt ⟨7, .epoch⟩ [.finish 0 (.panic none), .work 0, .work 0, .work 0, .work 0] ++
    allAt ⟨7 + 10 ^ 8, .epoch⟩ [.fire "a" (7 + 10 ^ 8), .work 1, .work 1, .finish 1 .success, .work 1, .work 1]
  have hseen : (run setup (fresh 10) steps).map (fun r =>
      (triggersOf "a" r.2, (recordsOf "b" r.2).length, isSettled (recordsOf "a" r.2), r.1.queue.closed)) =
      some ([.manual], 1, true, false) := by
    decide +kernel
  have hfailing : leadingFailures (results setup "a" (fresh 10) steps) = 2 := by decide +kernel
  have hvirtual : VirtualTime setup "a" (fresh 10) steps := by
    unfold VirtualTime
    decide +kernel
  have hontime : OnTime "a" steps := by
    intro clocks m hm
    obtain ⟨rfl, rfl⟩ : clocks = ⟨7 + 10 ^ 8, .epoch⟩ ∧ m = 7 + 10 ^ 8 := by simpa [steps, allAt] using hm
    rfl
  obtain ⟨⟨p, log⟩, hr, hmap⟩ := Option.map_eq_some_iff.mp hseen
  simp only [Prod.mk.injEq] at hmap
  obtain ⟨hone, hother, hsettled, ho⟩ := hmap
  obtain ⟨hcourse, htimes⟩ := isolated_key_course hr hone (.of_open hr ho "a") hsettled
  have htail := htimes hontime hvirtual
  have hentries : (entries setup "a" (fresh 10) steps).tail = [5, 7 + 10 ^ 8] := by decide +kernel
  exact ⟨setup, steps, p, log, hr, hone, hother, hfailing ▸ hcourse, htail.symm.trans hentries, hentries⟩

end ControlLoop.Pool
