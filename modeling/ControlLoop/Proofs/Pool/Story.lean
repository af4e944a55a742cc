import ControlLoop.Proofs.Pool.RetryLaw

/-!
# The story of a key

What a run does with a key, whether or not an onlooker takes it down: how the handler ended on it,
when it came to wait, and when a failure was handled that another attempt follows. Each of these is
what is seen `along` a run, step by step; for a single key a step adds to its story what
`Story.grow` says, by the places that the key leaves and comes to.

The parts of a story are told apart from each other, and yet they agree, at every stage of an
attempt, as long as the supervisor makes no record of its own (`Story.Agrees`).

The three lists of a story are gathered in different ways (`results` by the actions, `entries` by
the queue, `retries` by the places of the key), but each of them is read off the places before and
after a step: `entered_of_act` and `ended_of_act` say so of a whole pool. So what holds of a story
is shown by cases over `Standing.Step`.
-/

namespace ControlLoop

/-- Did the handler fail? -/
def Result.failed (r : Result) : Bool := r.error?.isSome

/-- The number of the retry that follows an attempt with this outcome. -/
def Outcome.retry? (count : Nat) : Outcome → Option Nat
  | failure _ => some (count + 1)
  | success | failureFinal _ => none

/-- The number of the retry that follows the attempt of a record. -/
def Record.retry? (r : Record) : Option Nat := r.outcome.retry? r.retryCount

/-- What sets a key off, if the notice says that a trigger of it was accepted. -/
def Notice.acceptedFor? (key : Key) : Notice → Option Trigger
  | .accepted k kind => if k = key then some kind else none
  | .refused _ | .delivered .. | .began _ | .delayed .. | .released _ | .recorded _ => none

theorem Notice.concerns_of_acceptedFor? {key : Key} {n : Notice} {kind : Trigger} (h : n.acceptedFor? key = some kind) :
    n.concerns key = true := by
  cases n <;> simp_all [acceptedFor?, concerns]

namespace Pool

/-- What is seen of a run, one step after the other. -/
def along {α : Type} (setup : Setup) (see : Clocks → Action → Pool → Pool → Option α) :
    Pool → List (Clocks × Action) → List α
  | _, [] => []
  | p, (clocks, a) :: steps =>
    match p.act setup clocks a with
    | none => []
    | some (q, _) => (see clocks a p q).toList ++ along setup see q steps

/-- How the handler ends on a key, if it does so in this step. -/
def resultOf (p : Pool) (key : Key) : Action → Option Result
  | .finish i result =>
    match p.workers[i]? with
    | some (.handling a) => if a.key = key then some result else none
    | _ => none
  | _ => none

/-- A failure that another attempt follows. -/
structure Retry where
  /-- when it was handled -/
  moment : Moment
  /-- the failures of the key by then -/
  failures : Nat
  /-- was the key marked when it had been handled? -/
  marked : Bool
  deriving DecidableEq

/-- When the policy says that the key is put in again. -/
def Retry.due (setup : Setup) (r : Retry) : Moment := r.moment + (setup.backoff.delay r.failures).nanos

namespace Place

/-- The failure that is handled between two places of a key, if another attempt follows. -/
def retried? (now : Moment) : Place → Place → Option Retry
  | held (.retrying _ _ _ f) _, held (.settled _ _ (.failure _)) again => some ⟨now, f, again⟩
  | _, _ => none

/-- Did the handler fail, if it ends between two places of a key? -/
def ended? : Place → Place → Option Bool
  | held (.handling _) _, held (.counting ..) _ => some true
  | held (.handling _) _, held (.settled ..) _ => some false
  | _, _ => none

/-- The moment, if the key comes to wait. -/
def entered? (now : Moment) : Place → Place → Option Moment
  | resting, waiting | held .., waiting => some now
  | _, _ => none

/-- A key that stays where it is has had no failure handled. -/
@[simp] theorem retried?_self (now : Moment) (p : Place) : p.retried? now p = none := by
  cases p with
  | resting | waiting => rfl
  | held stage => cases stage <;> rfl

theorem retried?_insert (now : Moment) (p : Place) : p.retried? now p.insert = none := by
  cases p with
  | resting | waiting => rfl
  | held stage => cases stage <;> rfl

theorem retried?_waiting (now : Moment) (p : Place) : p.retried? now .waiting = none := by
  cases p with
  | resting | waiting => rfl
  | held stage => cases stage <;> rfl

/-- No handler ends on a key that stays where it is. -/
@[simp] theorem ended?_self (p : Place) : p.ended? p = none := by
  cases p with
  | resting | waiting => rfl
  | held stage => cases stage <;> rfl

/-- A key that stays where it is does not come to wait. -/
@[simp] theorem entered?_self (now : Moment) (p : Place) : p.entered? now p = none := by
  cases p <;> rfl

end Place

section seen

variable (setup : Setup) (key : Key)

/-- How the handler ended on a key, each time. -/
def results : Pool → List (Clocks × Action) → List Result := along setup fun _ a p _ => p.resultOf key a

/-- The moments at which a key came to wait in the queue. -/
def entries : Pool → List (Clocks × Action) → List Moment :=
  along setup fun clocks _ p q => if key ∈ q.queue.pending ∧ key ∉ p.queue.pending then some clocks.now else none

/-- The failures of a key that another attempt follows. -/
def retries : Pool → List (Clocks × Action) → List Retry :=
  along setup fun clocks _ p q => (p.place key).retried? clocks.now (q.place key)

end seen

/-- What a run has done with a key, oldest first: how the handler ended on it, when it came to wait,
which of its failures another attempt follows, and its records. -/
structure Story where
  /-- did the handler fail? once for each time that it ended -/
  ends : List Bool := []
  /-- the records -/
  records : List Record := []
  /-- the failures that another attempt follows -/
  retries : List Retry := []
  /-- the moments at which it came to wait -/
  entries : List Moment := []

/-- The story of a key in a run. It is read off the places of the key before and after each step,
not only off the log, since a key may come to wait again without a notice. -/
def story (setup : Setup) (key : Key) (p : Pool) (steps : List (Clocks × Action)) (log : Log) : Story where
  ends := (results setup key p steps).map Result.failed
  records := recordsOf key log
  retries := retries setup key p steps
  entries := entries setup key p steps

/-- What a step adds to the story of a key. -/
def Story.grow (st : Story) (now : Moment) (p q : Place) (o : Option Notice) : Story where
  ends := st.ends ++ (p.ended? q).toList
  records := st.records ++ (o.bind Notice.record?).toList
  retries := st.retries ++ (p.retried? now q).toList
  entries := st.entries ++ (p.entered? now q).toList

/-- A step that leaves a key where it is, and in which its handler does not end, adds nothing to its
story. -/
@[simp] theorem Story.grow_self (st : Story) (now : Moment) (p : Place) : st.grow now p p none = st := by
  simp [grow]

/-! ## A step adds to the story

What is seen of a run is gathered step by step, in three ways. Here each of them is traced back to
the places of the key before and after the step, where `Standing.Step` says what is possible. That
it is enough to look at the places is due to `Sound`: a key that waits stands in the queue, and a
handler ends on the key of the worker that runs it. -/

variable {setup : Setup} {clocks : Clocks} {p q r : Pool} {key : Key} {a : Action} {notices : List Notice}
  {steps : List (Clocks × Action)} {log : Log}

/-- What is seen of a run that takes one more step is what was seen before, and what is seen of the
step. -/
theorem along_concat {α : Type} (see : Clocks → Action → Pool → Pool → Option α)
    (h : run setup p steps = some (q, log)) (hact : q.act setup clocks a = some (r, notices)) :
    along setup see p (steps ++ [(clocks, a)]) = along setup see p steps ++ (see clocks a q r).toList := by
  induction steps generalizing p log with
  | nil =>
    cases h
    simp [along, hact]
  | cons step steps ih =>
    obtain ⟨clocks', a'⟩ := step
    obtain ⟨p', notices', later, hact', hrun, -⟩ := run_cons_eq_some.mp h
    simp only [List.cons_append, along, hact']
    rw [ih hrun, List.append_assoc]

/-- A handler ends by its own doing. -/
theorem handling_of_act {i : Nat} {b : Attempt} (h : p.Sound setup) (hact : p.act setup clocks a = some (q, notices))
    (hw : p.workers[i]? = some (.handling b)) (ha : ∀ result, a ≠ .finish i result) :
    q.workers[i]? = some (.handling b) := by
  cases step_of_act hact with
  | @took j k rest hj | @left j hj | @released j k hj | @began j k kind hj | @dropped j a d e f hj
  | @kept j a d e f hj | @retriedAtOnce j a d e f hj | @retryCovered j a d e f m hj | @retryDelayed j a d e f hj
  | @retryRefused j a d e f hj | @recorded j a d o hj =>
    have hne : j ≠ i := by
      rintro rfl
      rw [hw] at hj
      cases hj
    exact (List.getElem?_set_ne hne).trans hw
  | @succeeded j _ result hj | @failed j _ result error hj =>
    have hne : j ≠ i := by
      rintro rfl
      exact ha result rfl
    exact (List.getElem?_set_ne hne).trans hw
  | started hi => exact absurd hi (h.phase_ne_idle hw)
  | _ => exact hw

/-- In a sound pool the keys that stand in the queue are those that wait. -/
theorem Sound.mem_pending_iff (h : p.Sound setup) (key : Key) : key ∈ p.queue.pending ↔ p.place key = .waiting := by
  refine ⟨h.place_of_pending, fun hp => ?_⟩
  unfold place at hp
  split at hp
  · cases hp
  · split at hp
    · assumption
    · cases hp

/-- A key comes to wait in a step exactly if it goes from another place to `waiting`. -/
theorem entered_of_act (h : p.Sound setup) (hact : p.act setup clocks a = some (q, notices)) (key : Key) :
    (if key ∈ q.queue.pending ∧ key ∉ p.queue.pending then some clocks.now else none) =
      (p.place key).entered? clocks.now (q.place key) := by
  have hp := h.mem_pending_iff key
  have hq := (sound_of_act h hact).mem_pending_iff key
  cases hold : p.place key <;> cases hnew : q.place key <;> rw [hold] at hp <;> rw [hnew] at hq <;>
    simp [hp, hq, Place.entered?]

/-- The handler ends on the key of the worker, and on no other. -/
theorem ended_of_moveTo {i : Nat} {b : Attempt} {new : Stage} (h : p.Sound setup) (hq : (q.moveTo i new).Sound setup)
    (hworkers : q.workers = p.workers) (hqueue : q.queue = p.queue) (hw : p.workers[i]? = some (.handling b))
    (hk : new.key? = some b.key) (key : Key) :
    (p.place key).ended? ((q.moveTo i new).place key) =
      if b.key = key then (Place.held (.handling b) false).ended? (.held new false) else none := by
  have hw' : q.workers[i]? = some (.handling b) := hworkers ▸ hw
  split
  · next heq =>
    subst heq
    rw [h.place_of_holder hw rfl, hq.place_of_holder (getElem?_moveTo hw' new) hk]
    cases new <;> rfl
  · next hne =>
    have hplace : (q.moveTo i new).place key = p.place key := by
      have hne' : some b.key ≠ some key := fun heq => hne (Option.some.inj heq)
      refine place_congr ?_ (by rw [moveTo, hqueue]) (by rw [moveTo, hqueue])
      exact (seat_moveTo_of_ne hw' hne' (hk ▸ hne')).trans (seat_congr hworkers)
    rw [hplace, Place.ended?_self]

/-- The handler ends on a key in a step exactly if the key goes from `handling` to a stage that lies
behind: to `settled` after a success, and to `counting` after a failure. -/
theorem ended_of_act (h : p.Sound setup) (hact : p.act setup clocks a = some (q, notices)) (key : Key) :
    (p.resultOf key a).map Result.failed = (p.place key).ended? (q.place key) := by
  have hq := sound_of_act h hact
  by_cases ha : ∃ i result, a = .finish i result
  · obtain ⟨i, result, rfl⟩ := ha
    -- only the two steps that end a handler move a worker off `handling`
    cases step_of_act hact with
    | succeeded hw hr =>
      rw [ended_of_moveTo h hq rfl rfl hw rfl key]
      simp only [resultOf, hw]
      split <;> simp [Result.failed, hr, Place.ended?]
    | failed hw hr =>
      rw [ended_of_moveTo h hq rfl rfl hw rfl key]
      simp only [resultOf, hw]
      split <;> simp [Result.failed, hr, Place.ended?]
  · have hnone : p.resultOf key a = none := by
      cases a <;> first | rfl | exact absurd ⟨_, _, rfl⟩ ha
    -- a handler that runs goes on
    have hgoes : ∀ b again, p.place key = .held (.handling b) again →
        ∃ again', q.place key = .held (.handling b) again' := by
      intro b again hp
      obtain ⟨hmem, hk⟩ := mem_of_seat (seat_of_place hp)
      obtain ⟨i, hw⟩ := List.getElem?_of_mem hmem
      exact ⟨_, hq.place_of_holder (handling_of_act h hact hw fun result heq => ha ⟨i, result, heq⟩) hk⟩
    rw [hnone, Option.map_none]
    unfold Place.ended?
    split
    · next b again _ _ _ _ _ hp hp' =>
      obtain ⟨_, heq⟩ := hgoes b again hp
      rw [heq] at hp'
      cases hp'
    · next b again _ _ _ _ hp hp' =>
      obtain ⟨_, heq⟩ := hgoes b again hp
      rw [heq] at hp'
      cases hp'
    · rfl

/-- The triggers of a key that were accepted, in the order in which they came. -/
def triggersOf (key : Key) (log : Log) : List Trigger := log.filterMap (·.2.acceptedFor? key)

/-- The triggers of a key in two logs are those of the first and then those of the second. -/
@[simp] theorem triggersOf_append (key : Key) (l₁ l₂ : Log) :
    triggersOf key (l₁ ++ l₂) = triggersOf key l₁ ++ triggersOf key l₂ := List.filterMap_append

/-- Whoever looks only at what is about a key finds all triggers of it. -/
theorem triggersOf_about (key : Key) (log : Log) : triggersOf key (about key log) = triggersOf key log := by
  rw [triggersOf, triggersOf, about, List.filterMap_filter]
  congr 1
  funext e
  split
  · rfl
  · next hn =>
    cases ha : e.2.acceptedFor? key with
    | none => rfl
    | some kind => exact absurd (Notice.concerns_of_acceptedFor? ha) hn

/-- A step that concerns a key makes one record of it at most. -/
theorem recordsOf_toList {o : Option Notice} (ho : ∀ n ∈ o, n.concerns key = true) (now : Moment) :
    recordsOf key (o.toList.map (now, ·)) = (o.bind Notice.record?).toList := by
  cases o with
  | none => rfl
  | some n =>
    have hn := ho n rfl
    cases hr : n.record? with
    | none => simp [recordsOf, records, hr]
    | some r =>
      rw [Notice.concerns_of_record? hr] at hn
      simpa [recordsOf, records, hr] using hn

/-- Where a key is triggered at most once, a run that goes on does at most one thing to it in each
step. -/
theorem grow_of_run {capacity : Nat} {kind : Trigger}
    (h : run setup (fresh capacity) (steps ++ [(clocks, a)]) = some (r, log)) (hone : triggersOf key log <+: [kind]) :
    ∃ q earlier notices o, run setup (fresh capacity) steps = some (q, earlier) ∧
      q.act setup clocks a = some (r, notices) ∧ notices.filter (·.concerns key) = o.toList ∧
      triggersOf key earlier <+: [kind] ∧
      triggersOf key log = triggersOf key earlier ++ (o.bind (·.acceptedFor? key)).toList ∧
      story setup key (fresh capacity) (steps ++ [(clocks, a)]) log =
        (story setup key (fresh capacity) steps earlier).grow clocks.now (q.place key) (r.place key) o ∧
      (Standing.Step setup key clocks (q.standing key) o (r.standing key) ∨
        o = none ∧ r.standing key = q.standing key) := by
  obtain ⟨q, earlier, notices, hrun, hact, rfl⟩ := run_concat_eq_some.mp h
  have hq := sound_of_run hrun
  have hturn : ∃ o : Option Notice, notices.filter (·.concerns key) = o.toList ∧
      (Standing.Step setup key clocks (q.standing key) o (r.standing key) ∨
        o = none ∧ r.standing key = q.standing key) := by
    have hturn := turn_of_act hq hact key
    generalize hn : notices.filter (·.concerns key) = mine at hturn
    generalize q.standing key = s, r.standing key = t at hturn ⊢
    cases hturn with
    | idle => exact ⟨none, rfl, .inr ⟨rfl, rfl⟩⟩
    | step hs => exact ⟨_, rfl, .inl hs⟩
  obtain ⟨o, ho, hstep⟩ := hturn
  have hconcerns : ∀ n ∈ o, n.concerns key = true := fun n hn => by
    have hmem : n ∈ notices.filter (·.concerns key) := ho ▸ Option.mem_toList.mpr hn
    exact (List.mem_filter.mp hmem).2
  have hearlier : triggersOf key earlier <+: [kind] := by
    rw [triggersOf_append] at hone
    exact (List.prefix_append _ _).trans hone
  refine ⟨q, earlier, notices, o, hrun, hact, ho, hearlier, ?_, ?_, hstep⟩
  · rw [triggersOf_append, ← triggersOf_about key (notices.map _), about_map, ho]
    cases o with
    | none => simp [triggersOf]
    | some n => cases hn : n.acceptedFor? key <;> simp [triggersOf, hn]
  · have hrecords : recordsOf key (notices.map (clocks.now, ·)) = (o.bind Notice.record?).toList := by
      rw [← recordsOf_about, about_map, ho, recordsOf_toList hconcerns]
    have hends : ((q.resultOf key a).toList).map Result.failed = ((q.place key).ended? (r.place key)).toList := by
      rw [← ended_of_act hq hact key, Option.toList_map]
    simp only [story, Story.grow, results, entries, retries, along_concat _ hrun hact, recordsOf_append, hrecords,
      entered_of_act hq hact key, List.map_append, hends]

/-! ## The parts of a story agree

Ends, entries and records follow each other around the places of a key, and between two of them one
is ahead of the other: the handler has ended and the record is still to be made, or the key waits
and the handler is still to end. `unrecorded`, `unrecordedRetry` and `ahead` say by how much, place
by place. -/

namespace Place

/-- The end of the handler that is not recorded yet. -/
def unrecorded : Place → List Bool
  | held (.counting ..) _ | held (.retrying ..) _ => [true]
  | held (.settled _ _ o) _ => [!o.isSuccess]
  | _ => []

/-- The number of the retry that follows a failure that is not recorded yet. -/
def unrecordedRetry : Place → List Nat
  | held (.settled a _ o) _ => (o.retry? a.retryCount).toList
  | _ => []

/-- How often the key came to wait since the handler last ended. -/
def ahead : Place → Nat
  | waiting | held (.holding ..) _ | held (.handling _) _ => 1
  | _ => 0

/-- Is the last attempt recorded, and the key not put in again? -/
def isBack : Place → Bool
  | resting | held (.releasing _) _ => true
  | _ => false

/-- A key that is back at rest has nothing that is still to be recorded. -/
theorem recorded_of_isBack {p : Place} (h : p.isBack = true) :
    p.unrecorded = [] ∧ p.unrecordedRetry = [] ∧ p.ahead = 0 := by
  cases p with
  | resting => exact ⟨rfl, rfl, rfl⟩
  | waiting => cases h
  | held stage => cases stage <;> first | exact ⟨rfl, rfl, rfl⟩ | cases h

end Place

/-- The story is complete up to the place of the key: what has ended and is not recorded yet, and
what has failed and is not put in yet, is told by the place. -/
structure Story.Agrees (st : Story) (p : Place) : Prop where
  /-- the handler fails exactly in the attempts that are not recorded as a success -/
  ends : st.ends = st.records.map (!·.outcome.isSuccess) ++ p.unrecorded
  /-- each failure that is not final is followed by the retry of its number -/
  retries : st.retries.map (·.failures) = st.records.filterMap Record.retry? ++ p.unrecordedRetry
  /-- the key comes to wait once for each attempt -/
  entries : st.entries.length = st.ends.length + p.ahead

namespace Story.Agrees

variable {setup : Setup} {key : Key} {clocks : Clocks} {st : Story} {s t : Standing} {o : Option Notice}

/-- What is added to the story has to agree with the places that the key leaves and comes to. -/
theorem grow {p q : Place} {now : Moment} (h : st.Agrees p)
    (he : p.unrecorded ++ (p.ended? q).toList =
      (o.bind Notice.record?).toList.map (!·.outcome.isSuccess) ++ q.unrecorded)
    (hr : p.unrecordedRetry ++ (p.retried? now q).toList.map (·.failures) =
      (o.bind Notice.record?).toList.filterMap Record.retry? ++ q.unrecordedRetry)
    (hn : p.ahead + (p.entered? now q).toList.length = (p.ended? q).toList.length + q.ahead) :
    (st.grow now p q o).Agrees q where
  ends := by rw [Story.grow, h.ends, List.append_assoc, he, List.map_append, List.append_assoc]
  retries := by
    rw [Story.grow, List.map_append, h.retries, List.append_assoc, hr, List.filterMap_append, List.append_assoc]
  entries := by
    simp only [Story.grow, List.length_append, h.entries]
    omega

theorem insert {p : Place} {now : Moment} (h : st.Agrees p) (ho : o.bind Notice.record? = none) :
    (st.grow now p p.insert o).Agrees p.insert := by
  cases p with
  | resting | waiting => exact h.grow (by rw [ho]; rfl) (by rw [ho]; rfl) rfl
  | held stage again => cases stage <;> exact h.grow (by rw [ho]; rfl) (by rw [ho]; exact List.append_nil _) rfl

/-- Every step adds to the story what makes it complete, unless the supervisor closes an account. -/
theorem step (h : st.Agrees s.place) (hs : Standing.Step setup key clocks s o t)
    (ht : Tally setup.retryLimit st.records s) (hc : s.closed = true → s.account = none) :
    (st.grow clocks.now s.place t.place o).Agrees t.place := by
  cases hs with
  | accept | fire => exact h.insert rfl
  | refuse | shut | forget => simpa [Story.grow, Notice.record?] using h
  | deliver hp | begin hp | succeed hp | fail hp | drop hp | keep hp | retryCancelled hp =>
    rw [hp] at h ⊢
    exact h.grow rfl rfl rfl
  | retryAtOnce hp | retryCovered hp | retryLater hp =>
    obtain ⟨hcount, rfl, -⟩ := ht.stage hp
    rw [hp, ← hcount] at h ⊢
    exact h.grow rfl rfl rfl
  | @record a d o again n hp =>
    rw [hp] at h ⊢
    exact h.grow rfl rfl rfl
  | @release again hp =>
    rw [hp] at h ⊢
    cases again <;> exact h.grow rfl rfl rfl
  | abandon hcl hp ha =>
    rw [hc hcl] at ha
    cases ha

end Story.Agrees

end Pool

end ControlLoop
