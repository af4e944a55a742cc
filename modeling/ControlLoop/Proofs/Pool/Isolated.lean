import ControlLoop.Proofs.Pool.Delivery
import ControlLoop.Proofs.Pool.Story

/-!
# An isolated key

What goes on about a key that is triggered once, and settles before the queue is shut. At every
place of such a key one thing at most is under way: an attempt is made, or one more is owed and one
thing will set it off, or all is over (`Place.Course`). So each attempt follows from the failure of
the one before, the records are a series (`Series`), and no timer and no mark is ever left over that
could add an attempt or hurry one.

Other keys, other workers and the resync may do what they like: whatever they do, the key either
stays as it is or does one thing of its own (`grow_of_run`). `lone_of_run` shows by an induction
over the run that all of this holds at every moment.
-/

namespace ControlLoop

namespace Outcome

/-- Will the key be tried again? -/
def repeats : Outcome → Bool
  | failure _ => true
  | success | failureFinal _ => false

/-- Only a failure that is not final is followed by another attempt. -/
theorem repeats_eq_true_iff {o : Outcome} : o.repeats = true ↔ ∃ e, o = .failure e := by
  cases o <;> simp [repeats]

end Outcome

namespace Pool

/-- Has the key been handled for good? -/
def isSettled (records : List Record) : Bool := records.getLast?.any (!·.outcome.repeats)

/-- Is another attempt owed, by the last record? -/
def isOwed (records : List Record) : Bool := records.getLast?.any (·.outcome.repeats)

/-- The last record decides whether the key has settled. -/
@[simp] theorem isSettled_concat (records : List Record) (r : Record) :
    isSettled (records ++ [r]) = !r.outcome.repeats := by
  simp [isSettled]

/-- The last record decides whether another attempt is owed. -/
@[simp] theorem isOwed_concat (records : List Record) (r : Record) : isOwed (records ++ [r]) = r.outcome.repeats := by
  simp [isOwed]

/-- A key that is owed an attempt has not settled; before the first record it is neither. -/
theorem isSettled_eq_false {records : List Record} (h : isOwed records = true) : isSettled records = false := by
  rcases List.eq_nil_or_concat records with rfl | ⟨records, r, rfl⟩
  · rfl
  · simpa using h

/-- Has the handler ended, while the key is still held? -/
def Place.isPast : Place → Bool
  | held (.counting ..) _ | held (.retrying ..) _ | held (.settled ..) _ | held (.releasing _) _ => true
  | _ => false

/-- The key comes to wait without anybody's doing. -/
def Place.returns : Place → Bool
  | waiting => true
  | held _ again => again
  | resting => false

/-- A key that is put in comes to wait without anybody's doing: it waits already, or it is
marked. -/
@[simp] theorem Place.returns_insert (p : Place) : p.insert.returns = true := by
  cases p <;> rfl

namespace Standing

/-- An attempt is made, and nothing else is under way: no timer will put the key in, and it is not
marked. -/
structure Engaged (kind : Option Trigger) (s : Standing) : Prop where
  /-- what sets the next delivery off -/
  kind : s.kind = kind
  /-- no timer runs -/
  delayed : s.delayed = none
  /-- the key is not marked -/
  unmarked : s.place.returns = false

theorem Engaged.again {kind : Option Trigger} {s : Standing} {stage : Stage} {again : Bool} (h : s.Engaged kind)
    (hp : s.place = .held stage again) : again = false := by
  have hunmarked := h.unmarked
  rwa [hp] at hunmarked

/-- Another attempt is owed, and one thing sets it off: the key comes to wait by itself, or a timer
puts it in. It is never both, so no attempt is made twice. -/
structure Owed (kind : Trigger) (s : Standing) : Prop where
  /-- what sets the next delivery off -/
  kind : s.kind = some kind
  /-- the key does not come twice -/
  once : s.place.returns = true ↔ s.delayed = none

/-- Nothing is under way, and nothing will be. -/
structure Over (s : Standing) : Prop where
  /-- nothing sets a delivery off -/
  kind : s.kind = none
  /-- no timer runs -/
  delayed : s.delayed = none
  /-- no account is open -/
  account : s.account = none
  /-- the key is not marked -/
  unmarked : s.place.returns = false

/-- What is under way when the outcome of an attempt is known. -/
def After (kind : Trigger) (owed : Bool) (s : Standing) : Prop := if owed then s.Owed kind else s.Over

namespace After

variable {kind : Trigger} {owed : Bool} {s t : Standing} {m : Moment}

theorem of_owed (h : s.Owed kind) : s.After kind true := h

theorem of_over (h : s.Over) : s.After kind false := h

/-- What is under way does not change with the stage of the worker, as long as the mark, the timer,
the account and the kind stay as they are. -/
theorem move (h : s.After kind owed) (hk : t.kind = s.kind) (hd : t.delayed = s.delayed) (ha : t.account = s.account)
    (hr : t.place.returns = s.place.returns) : t.After kind owed := by
  cases owed with
  | true =>
    have h : s.Owed kind := h
    exact (⟨hk ▸ h.kind, by rw [hr, hd, h.once]⟩ : t.Owed kind)
  | false =>
    have h : s.Over := h
    exact (⟨hk ▸ h.kind, hd ▸ h.delayed, ha ▸ h.account, hr ▸ h.unmarked⟩ : t.Over)

/-- A key that comes to wait by itself, or that a timer puts in, is owed an attempt. -/
theorem owed_of_coming (h : s.After kind owed) (hs : s.place.returns = true ∨ s.delayed ≠ none) :
    owed = true ∧ s.Owed kind := by
  cases owed with
  | true => exact ⟨rfl, h⟩
  | false =>
    have h : s.Over := h
    rcases hs with hr | hd
    · exact absurd hr (by simp [h.unmarked])
    · exact absurd h.delayed hd

end After

end Standing

namespace Standing.Step

variable {setup : Setup} {key : Key} {clocks : Clocks} {s t : Standing} {o : Option Notice}

/-- Unless a failure is handled, no timer is set. -/
theorem delayed_of_not_retried (hs : Step setup key clocks s o t)
    (hr : s.place.retried? clocks.now t.place = none) {m : Moment} (hm : t.delayed = some m) : s.delayed = some m := by
  cases hs with
  | retryLater hp =>
    rw [hp] at hr
    cases hr
  | fire | shut => cases hm
  | _ => exact hm

/-- A key that is held with a mark was marked before, or its timer has gone off, or its failure was
handled just now. -/
theorem marked_of_not_retried (hs : Step setup key clocks s o t)
    (hone : ∀ k, o = some (.accepted key k) → s.place = .resting) {stage : Stage}
    (ht : t.place = .held stage true) (hr : s.place.retried? clocks.now t.place = none) :
    o = some (.released key) ∨ ∃ stage', s.place = .held stage' true := by
  cases hs with
  | @accept k ho =>
    rw [hone k rfl] at ht
    cases ht
  | fire => exact .inl rfl
  | refuse | shut | abandon | forget => exact .inr ⟨stage, ht⟩
  | deliver => cases ht
  | begin hp | succeed hp | fail hp | drop hp | keep hp | retryCancelled hp | record hp | retryLater hp
  | retryCovered hp =>
    cases ht
    exact .inr ⟨_, hp⟩
  | retryAtOnce hp =>
    rw [hp] at hr
    cases hr
  | @release again => cases again <;> cases ht

end Standing.Step

/-- What is under way, at each place of a key that is triggered once. The cases are the stages of a
worker: before the outcome is known the key is `Engaged`, and `After` it either `Owed` or `Over`. -/
def Place.Course (kind : Trigger) (records : List Record) (s : Standing) : Place → Prop
  | .waiting => isSettled records = false ∧ s.Owed kind
  | .held (.holding _ k) _ => isSettled records = false ∧ k = kind ∧ s.Engaged none
  | .held (.handling a) _ | .held (.counting a ..) _ => isSettled records = false ∧ a.trigger = kind ∧ s.Engaged none
  | .held (.retrying a ..) _ => isSettled records = false ∧ a.trigger = kind ∧ s.Engaged (some kind)
  | .held (.settled a _ o) _ => isSettled records = false ∧ a.trigger = kind ∧ s.After kind o.repeats
  | .held (.releasing _) _ | .resting => s.After kind (isOwed records)
  | .held .asking _ | .held .exited _ => False

namespace Place.Course

variable {setup : Setup} {key : Key} {clocks : Clocks} {kind : Trigger} {records : List Record} {s t : Standing}
  {o : Option Notice}

/-- Nothing is under way if no attempt is owed. -/
theorem after_iff_over (hs : isSettled records = true) : s.After kind (isOwed records) ↔ s.Over := by
  cases ho : isOwed records with
  | true =>
    rw [isSettled_eq_false ho] at hs
    cases hs
  | false => exact Iff.rfl

/-- When the key has settled nothing is under way. -/
theorem of_settled (h : s.place.Course kind records s) (hs : isSettled records = true) :
    s.Over ∧ s.place.isBack = true := by
  cases hp : s.place with
  | resting =>
    rw [hp] at h
    exact ⟨(after_iff_over hs).mp h, rfl⟩
  | waiting =>
    rw [hp] at h
    exact absurd hs (by simp [h.1])
  | held stage again =>
    rw [hp] at h
    cases stage with
    | releasing k => exact ⟨(after_iff_over hs).mp h, rfl⟩
    | asking | exited => exact h.elim
    | holding | handling | counting | retrying | settled => exact absurd hs (by simp [h.1])

/-- If nothing is under way, any place of a key that is back at rest, or is about to be, is
right. -/
theorem of_over {p : Place} (h : s.Over) (hs : isSettled records = true) (hp : p.isBack = true) :
    p.Course kind records s := by
  cases p with
  | resting => exact (after_iff_over hs).mpr h
  | waiting => cases hp
  | held stage => cases stage <;> first | exact (after_iff_over hs).mpr h | cases hp

/-! ### What a step makes of the course

One lemma for each thing that can happen to the key and makes no record, in the order of an attempt; `step_of_silent`
puts them together. -/

/-- The one trigger brings the key into the queue, and is what sets the first attempt off. -/
theorem accept (h : s.place.Course kind [] s) (hp : s.place = .resting) :
    Place.Course kind [] { s with place := s.place.insert, kind := some (outweigh kind s.kind) } s.place.insert := by
  rw [hp] at h ⊢
  have hover : s.Over := h
  exact ⟨rfl, by simp [hover.kind, outweigh], by simp [hover.delayed]⟩

/-- What was owed is delivered, with the kind that was noted; no timer is left behind. -/
theorem deliver (h : s.place.Course kind records s) (hp : s.place = .waiting) (key : Key) :
    Place.Course kind records { s with place := .held (.holding key (s.kind.getD .auto)) false, kind := none }
      (.held (.holding key (s.kind.getD .auto)) false) := by
  rw [hp] at h
  obtain ⟨hu, howed⟩ := h
  refine ⟨hu, by simp [howed.kind], rfl, ?_, rfl⟩
  exact howed.once.mp (by rw [hp]; rfl)

/-- The attempt begins. -/
theorem begin {k : Trigger} {again : Bool} (h : s.place.Course kind records s)
    (hp : s.place = .held (.holding key k) again) (count : Nat) (wall : Timestamp) (now : Moment) :
    Place.Course kind records { s with place := .held (.handling ⟨key, k, count, wall, now⟩) again }
      (.held (.handling ⟨key, k, count, wall, now⟩) again) := by
  rw [hp] at h
  obtain ⟨hu, rfl, hengaged⟩ := h
  exact ⟨hu, rfl, hengaged.kind, hengaged.delayed, hengaged.again hp⟩

/-- An attempt that is not repeated closes the account, and nothing is under way any more. -/
theorem close {a : Attempt} {stage : Stage} {again : Bool} {out : Outcome} (hu : isSettled records = false)
    (hk : a.trigger = kind) (hengaged : s.Engaged none) (hp : s.place = .held stage again) (d : Span)
    (ho : out.repeats = false) :
    Place.Course kind records { s with place := .held (.settled a d out) again, account := none }
      (.held (.settled a d out) again) := by
  refine ⟨hu, hk, ?_⟩
  rw [ho]
  exact .of_over ⟨hengaged.kind, hengaged.delayed, rfl, hengaged.again hp⟩

/-- A failure is counted. -/
theorem fail {a : Attempt} {again : Bool} (h : s.place.Course kind records s)
    (hp : s.place = .held (.handling a) again) (d : Span) (error : String) (count : Nat) :
    Place.Course kind records
      { s with place := .held (.counting a d error count) again, account := some ⟨count, error⟩ }
      (.held (.counting a d error count) again) := by
  rw [hp] at h
  obtain ⟨hu, hk, hengaged⟩ := h
  exact ⟨hu, hk, hengaged.kind, hengaged.delayed, hengaged.again hp⟩

/-- The kind of the attempt is noted for the next one. -/
theorem keep {a : Attempt} {d : Span} {e : String} {f : Nat} {again : Bool} (h : s.place.Course kind records s)
    (hp : s.place = .held (.counting a d e f) again) :
    Place.Course kind records
      { s with place := .held (.retrying a d e f) again, kind := some (s.kind.getD a.trigger) }
      (.held (.retrying a d e f) again) := by
  rw [hp] at h
  obtain ⟨hu, hk, hengaged⟩ := h
  exact ⟨hu, hk, by simp [hengaged.kind, hk], hengaged.delayed, hengaged.again hp⟩

/-- After a failure the key is marked, or a timer is set, but not both: one thing sets the next
attempt off. -/
theorem retry {a : Attempt} {d : Span} {e : String} {again : Bool} {delayed : Option Moment}
    (hu : isSettled records = false) (hk : a.trigger = kind) (hengaged : s.Engaged (some kind))
    (hone : again = true ↔ delayed = none) :
    Place.Course kind records { s with place := .held (.settled a d (.failure e)) again, delayed }
      (.held (.settled a d (.failure e)) again) :=
  ⟨hu, hk, .of_owed ⟨hengaged.kind, hone⟩⟩

/-- A key that is given back waits if it was marked, and then an attempt is owed; else it goes on to
rest. -/
theorem release {again : Bool} (h : s.place.Course kind records s) (hp : s.place = .held (.releasing key) again) :
    Place.Course kind records { s with place := if again then .waiting else .resting }
      (if again then .waiting else .resting) := by
  have hr : s.place.returns = again := by
    rw [hp]
    rfl
  rw [hp] at h
  have hafter : s.After kind (isOwed records) := h
  cases again with
  | false => exact hafter.move rfl rfl rfl hr.symm
  | true =>
    obtain ⟨ho, howed⟩ := hafter.owed_of_coming (.inl hr)
    exact ⟨isSettled_eq_false ho, howed.kind, iff_of_true rfl (howed.once.mp hr)⟩

/-- A timer runs only for a key that rests, or whose failure has been handled: elsewhere nothing was
left over. -/
theorem fire (h : s.place.Course kind records s) (hd : s.delayed ≠ none) :
    Place.Course kind records { s with place := s.place.insert, delayed := none } s.place.insert := by
  have howed : s.Owed kind → Standing.Owed kind { s with place := s.place.insert, delayed := none } :=
    fun h => ⟨h.kind, by simp⟩
  cases hp : s.place with
  | resting =>
    rw [hp] at h howed
    obtain ⟨ho, hs⟩ := Standing.After.owed_of_coming h (.inr hd)
    exact ⟨isSettled_eq_false ho, howed hs⟩
  | waiting =>
    rw [hp] at h
    exact absurd (h.2.once.mp (by rw [hp]; rfl)) hd
  | held stage again =>
    rw [hp] at h howed
    cases stage with
    | asking | exited => exact h.elim
    | holding | handling | counting | retrying => exact absurd h.2.2.delayed hd
    | settled a d o =>
      obtain ⟨ho, hs⟩ := h.2.2.owed_of_coming (.inr hd)
      exact ⟨h.1, h.2.1, by rw [ho]; exact .of_owed (howed hs)⟩
    | releasing k =>
      obtain ⟨ho, hs⟩ := Standing.After.owed_of_coming h (.inr hd)
      show Standing.After kind (isOwed records) _
      rw [ho]
      exact .of_owed (howed hs)

/-- A step that makes no record keeps the course. -/
theorem step_of_silent (h : s.place.Course kind records s) (hs : Standing.Step setup key clocks s o t)
    (hone : ∀ k, o = some (.accepted key k) → s.place = .resting ∧ records = [] ∧ k = kind)
    (hopen : t.closed = true → isSettled records = true) (hn : o.bind Notice.record? = none) :
    t.place.Course kind records t := by
  cases hs with
  | @accept k ho =>
    obtain ⟨hp, rfl, rfl⟩ := hone k rfl
    exact h.accept hp
  | refuse => exact h
  | deliver hp => exact h.deliver hp key
  | begin hp => exact h.begin hp ..
  | succeed hp | drop hp =>
    rw [hp] at h
    obtain ⟨hu, hk, hengaged⟩ := h
    exact close hu hk hengaged hp _ rfl
  | fail hp => exact h.fail hp ..
  | keep hp => exact h.keep hp
  | retryAtOnce hp =>
    rw [hp] at h
    obtain ⟨hu, hk, hengaged⟩ := h
    exact retry hu hk hengaged (iff_of_true rfl hengaged.delayed)
  | retryLater hp =>
    rw [hp] at h
    obtain ⟨hu, hk, hengaged⟩ := h
    exact retry hu hk hengaged (by simp [hengaged.again hp])
  | retryCovered hp ho hd hm =>
    -- no timer was left over that could cover the retry
    rw [hp] at h
    rw [h.2.2.delayed] at hm
    cases hm
  | retryCancelled hp hc =>
    -- the queue is not shut while the key is not settled
    rw [hp] at h
    exact absurd (hopen hc) (by simp [h.1])
  | record | abandon => cases hn
  | release hp => exact h.release hp
  | fire ho hm => exact h.fire (by simp [hm])
  | shut =>
    obtain ⟨hover, hp⟩ := h.of_settled (hopen rfl)
    exact of_over ⟨hover.kind, rfl, hover.account, hover.unmarked⟩ (hopen rfl) hp
  | forget hc =>
    obtain ⟨hover, hp⟩ := h.of_settled (hopen hc)
    exact of_over ⟨rfl, hover.delayed, hover.account, hover.unmarked⟩ (hopen hc) hp

/-- How a failure is handled that another attempt follows: without a delay the key is marked, else a
timer is set. -/
theorem retried (h : s.place.Course kind records s) (hs : Standing.Step setup key clocks s o t) {r : Retry}
    (hr : s.place.retried? clocks.now t.place = some r) :
    r.marked = decide ((setup.backoff.delay r.failures).nanos = 0) ∧
      (t.place.returns = true → r.due setup = clocks.now) ∧ ∀ m, t.delayed = some m → m = r.due setup := by
  cases hs with
  | accept | fire =>
    rw [retried?_insert] at hr
    cases hr
  | refuse | shut | abandon | forget =>
    rw [retried?_self] at hr
    cases hr
  | deliver hp | begin hp | succeed hp | fail hp | drop hp | keep hp | retryCancelled hp | record hp =>
    rw [hp] at hr
    cases hr
  | @release again hp =>
    rw [hp] at hr
    cases again <;> cases hr
  -- without a delay the key is marked, and no timer runs
  | retryAtOnce hp ho hd =>
    rw [hp] at h hr
    obtain ⟨-, -, hengaged⟩ := h
    cases hr
    exact ⟨by simp [hd], fun _ => by simp [Retry.due, hd], by simp [hengaged.delayed]⟩
  | retryCovered hp ho hd hm =>
    rw [hp] at h
    obtain ⟨-, -, hengaged⟩ := h
    rw [hengaged.delayed] at hm
    cases hm
  | retryLater hp ho hd =>
    rw [hp] at h hr
    obtain ⟨-, -, hengaged⟩ := h
    cases hr
    have hagain := hengaged.again hp
    exact ⟨by simp [hd, hagain], fun hb => by simp [Place.returns, hagain] at hb, by simp [Retry.due, eq_comm]⟩

/-- Before it is triggered the key stays where it is. -/
theorem rest (h : s.place.Course kind [] s) (hp : s.place = .resting) (hs : Standing.Step setup key clocks s o t)
    (hone : ∀ k, o ≠ some (.accepted key k)) : t.place = .resting ∧ o.bind Notice.record? = none := by
  rw [hp] at h
  have hover : s.Over := h
  cases hs with
  | accept => exact absurd rfl (hone _)
  | refuse | shut | forget => exact ⟨hp, rfl⟩
  | fire ho hm =>
    rw [hover.delayed] at hm
    cases hm
  | abandon hc hheld ha =>
    rw [hover.account] at ha
    cases ha
  | deliver hp' | begin hp' | succeed hp' | fail hp' | drop hp' | keep hp' | retryAtOnce hp' | retryCovered hp'
  | retryLater hp' | retryCancelled hp' | record hp' | release hp' =>
    rw [hp] at hp'
    cases hp'

/-- A key comes to wait when it is triggered, when its timer goes off, or when it is given back with
a mark. -/
theorem entered (h : s.place.Course kind records s) (hs : Standing.Step setup key clocks s o t)
    (hone : ∀ k, o = some (.accepted key k) → s.place = .resting ∧ records = [] ∧ k = kind) {m : Moment}
    (he : s.place.entered? clocks.now t.place = some m) :
    m = clocks.now ∧ t.place = .waiting ∧ ((s.place = .resting ∧ records = []) ∨
      isOwed records = true ∧ ((s.place = .resting ∧ o = some (.released key)) ∨
        ∃ k, s.place = .held (.releasing k) true)) := by
  cases hs with
  | @accept k ho =>
    obtain ⟨hp, hnil, -⟩ := hone k rfl
    rw [hp] at he ⊢
    cases he
    exact ⟨rfl, rfl, .inl ⟨rfl, hnil⟩⟩
  | fire ho hm =>
    cases hp : s.place with
    | resting =>
      rw [hp] at h he
      cases he
      have howed := (Standing.After.owed_of_coming h (.inr (by simp [hm]))).1
      exact ⟨rfl, rfl, .inr ⟨howed, .inl ⟨rfl, rfl⟩⟩⟩
    | waiting | held =>
      rw [hp] at he
      cases he
  | refuse | shut | abandon | forget =>
    rw [entered?_self] at he
    cases he
  | deliver hp | begin hp | succeed hp | fail hp | drop hp | keep hp | retryAtOnce hp | retryCovered hp
  | retryLater hp | retryCancelled hp | record hp =>
    rw [hp] at he
    cases he
  | @release again hp =>
    cases again with
    | false =>
      rw [hp] at he
      cases he
    | true =>
      rw [hp] at h he
      cases he
      have howed := (Standing.After.owed_of_coming h (.inl (by rw [hp]; rfl))).1
      exact ⟨rfl, rfl, .inr ⟨howed, .inr ⟨key, hp⟩⟩⟩

/-- A key is marked only after its failure has been handled. -/
theorem isPast_of_marked (h : s.place.Course kind records s) {stage : Stage} (hp : s.place = .held stage true) :
    s.place.isPast = true := by
  rw [hp] at h ⊢
  cases stage with
  | asking | exited => exact h.elim
  | holding | handling => exact absurd (h.2.2.again hp) (by simp)
  | counting | retrying | settled | releasing => rfl

/-- A record is made only of an attempt that has ended, and the course goes on. -/
theorem record {r : Record} (h : s.place.Course kind records s) (hs : Standing.Step setup key clocks s o t)
    (hopen : s.closed = true → isSettled records = true) (hr : o.bind Notice.record? = some r) :
    t.place.Course kind (records ++ [r]) t ∧ isSettled records = false ∧
      ∃ a d again, s.place = .held (.settled a d r.outcome) again ∧ r.retryCount = a.retryCount ∧ r.trigger = kind := by
  cases hs with
  | @record a d out again n hp =>
    cases hr
    rw [hp] at h
    obtain ⟨hu, hk, hafter⟩ := h
    refine ⟨?_, hu, a, d, again, hp, rfl, hk⟩
    show Standing.After kind (isOwed _) _
    rw [isOwed_concat]
    exact hafter.move rfl rfl rfl (by rw [hp]; rfl)
  | abandon hc hp ha =>
    obtain ⟨hover, -⟩ := h.of_settled (hopen hc)
    rw [hover.account] at ha
    cases ha
  | _ => cases hr

end Place.Course

/-! ## The records of an isolated key

`Series` is about records alone. As long as the key has not settled every record is to be repeated,
so the next retry count is the number of records so far (`expectedCount_eq`), and one more record
with this count and the kind of the trigger continues the series (`concat`). -/

/-- Each attempt that is repeated is followed by a retry. -/
theorem filterMap_retry? {records : List Record} (h : ∀ r ∈ records, r.outcome.repeats = true) :
    records.filterMap Record.retry? = records.map (·.retryCount + 1) := by
  rw [List.filterMap_eq_map_iff_forall_eq_some]
  intro r hr
  obtain ⟨e, he⟩ := Outcome.repeats_eq_true_iff.mp (h r hr)
  rw [Record.retry?, he]
  rfl

/-- The records of a key that is triggered once: all but the last are repeated, and each counts one
failure more than the one before. -/
structure Series (limit : Nat) (kind : Trigger) (records : List Record) : Prop where
  /-- the retries are numbered -/
  counts : records.map (·.retryCount) = List.range records.length
  /-- only the last attempt is not repeated -/
  repeated : ∀ r ∈ records.dropLast, r.outcome.repeats = true
  /-- the trigger sets off every attempt -/
  trigger : ∀ r ∈ records, r.trigger = kind
  /-- the key is dropped at the limit -/
  final : ∀ r ∈ records, ∀ e, r.outcome = .failureFinal e → limit ≤ r.retryCount

namespace Series

variable {limit : Nat} {kind : Trigger} {records : List Record}

theorem nil (limit : Nat) (kind : Trigger) : Series limit kind [] := ⟨rfl, by simp, by simp, by simp⟩

theorem repeats_of_mem {r : Record} (h : Series limit kind (records ++ [r])) :
    ∀ q ∈ records, q.outcome.repeats = true := by
  have hrepeated := h.repeated
  rwa [List.dropLast_concat] at hrepeated

/-- Until the key has settled, all its attempts are repeated. -/
theorem repeated_of_not_settled (h : Series limit kind records) (hs : isSettled records = false) :
    ∀ r ∈ records, r.outcome.repeats = true := by
  rcases List.eq_nil_or_concat records with rfl | ⟨earlier, r, rfl⟩
  · simp
  · rw [List.concat_eq_append] at h hs ⊢
    intro q hq
    rcases List.mem_append.mp hq with hq | hq
    · exact h.repeats_of_mem q hq
    · rw [List.mem_singleton.mp hq]
      simpa using hs

/-- The retries of a series are numbered from 0, the last one by the number of those before it. -/
theorem counts_concat {r : Record} (h : Series limit kind (records ++ [r])) :
    records.map (·.retryCount) = List.range records.length ∧ r.retryCount = records.length := by
  have hcounts := h.counts
  rw [List.map_append, List.length_append, List.length_singleton, List.range_succ] at hcounts
  obtain ⟨hinit, hlast⟩ := List.append_inj' hcounts rfl
  exact ⟨hinit, by simpa using hlast⟩

/-- As long as the key has not settled the next attempt has the next number. -/
theorem expectedCount_eq (h : Series limit kind records) (hs : isSettled records = false) :
    expectedCount records = records.length := by
  rcases List.eq_nil_or_concat records with rfl | ⟨earlier, r, rfl⟩
  · rfl
  · rw [List.concat_eq_append] at h hs ⊢
    obtain ⟨e, he⟩ := Outcome.repeats_eq_true_iff.mp (h.repeated_of_not_settled hs r (by simp))
    rw [expectedCount_concat, Record.nextRetryCount, he, Outcome.nextRetryCount, h.counts_concat.2, List.length_append]
    rfl

/-- One more attempt may follow while the key has not settled, with the next number and the kind of
the trigger. -/
theorem concat (h : Series limit kind records) (hs : isSettled records = false) {r : Record}
    (hcount : r.retryCount = expectedCount records) (hkind : r.trigger = kind)
    (hfinal : ∀ e, r.outcome = .failureFinal e → limit ≤ r.retryCount) : Series limit kind (records ++ [r]) where
  counts := by
    rw [List.map_append, h.counts, List.length_append, List.length_singleton, List.range_succ, List.map_singleton,
      hcount, h.expectedCount_eq hs]
  repeated := by
    rw [List.dropLast_concat]
    exact h.repeated_of_not_settled hs
  trigger := by
    intro q hq
    rcases List.mem_append.mp hq with hq | hq
    · exact h.trigger q hq
    · exact List.mem_singleton.mp hq ▸ hkind
  final := by
    intro q hq
    rcases List.mem_append.mp hq with hq | hq
    · exact h.final q hq
    · exact List.mem_singleton.mp hq ▸ hfinal

end Series

/-! ## The course of a whole run

`Story.Lone` puts the parts together, and `Story.Lone.step` keeps them clause by clause: a step that
makes no record leaves the series as it is and moves on along the course, and one that makes a
record continues both. That the queue is open until the key has settled is needed in either case. -/

/-- What holds of a key that is triggered once, at every moment. -/
structure Story.Lone (setup : Setup) (kind : Trigger) (triggers : List Trigger) (st : Story) (s : Standing) : Prop where
  /-- nothing happens before the trigger -/
  untriggered : triggers = [] → s.place = .resting ∧ st.records = []
  /-- one thing at a time is under way -/
  course : s.place.Course kind st.records s
  /-- the records -/
  series : Series setup.retryLimit kind st.records
  /-- a key that is tried again without delay is marked -/
  marked : ∀ r ∈ st.retries, r.marked = decide ((setup.backoff.delay r.failures).nanos = 0)

namespace Story.Lone

variable {setup : Setup} {key : Key} {clocks : Clocks} {kind : Trigger} {triggers : List Trigger} {st : Story}
  {s t : Standing} {o : Option Notice}

theorem untouched (setup : Setup) (kind : Trigger) : Lone setup kind [] {} .untouched where
  untriggered _ := ⟨rfl, rfl⟩
  course := (⟨rfl, rfl, rfl, rfl⟩ : Standing.untouched.Over)
  series := .nil ..
  marked := by simp

/-- The trigger is the first thing that happens. -/
theorem of_accepted (h : st.Lone setup kind triggers s)
    (hone : triggers ++ (o.bind (·.acceptedFor? key)).toList <+: [kind]) :
    ∀ k, o = some (.accepted key k) → s.place = .resting ∧ st.records = [] ∧ k = kind := by
  rintro k rfl
  simp only [Option.bind_some, Notice.acceptedFor?, if_pos, Option.toList_some] at hone
  obtain rfl : triggers = [] := by simpa using hone.length_le
  obtain ⟨hp, hnil⟩ := h.untriggered rfl
  exact ⟨hp, hnil, by simpa using hone⟩

/-- Every step of the key keeps it lone. That the queue is open until the key has settled comes in
twice: no retry is cut off (`hpost`), and no key is dropped below the limit (`hpre`). -/
theorem step (h : st.Lone setup kind triggers s) (hs : Standing.Step setup key clocks s o t)
    (ht : Tally setup.retryLimit st.records s) (hone : triggers ++ (o.bind (·.acceptedFor? key)).toList <+: [kind])
    (hpre : s.closed = true → isSettled st.records = true)
    (hpost : t.closed = true → isSettled (st.grow clocks.now s.place t.place o).records = true) :
    (st.grow clocks.now s.place t.place o).Lone setup kind (triggers ++ (o.bind (·.acceptedFor? key)).toList) t where
  untriggered hnone := by
    obtain ⟨htriggers, ho⟩ := List.append_eq_nil_iff.mp hnone
    obtain ⟨hp, hrecords⟩ := h.untriggered htriggers
    have hcourse := h.course
    rw [hrecords] at hcourse
    obtain ⟨hp', hsilent⟩ := hcourse.rest hp hs fun k hk => by simp [hk, Notice.acceptedFor?] at ho
    exact ⟨hp', by simp [grow, hrecords, hsilent]⟩
  course := by
    cases hr : o.bind Notice.record? with
    | none =>
      have hrecords : (st.grow clocks.now s.place t.place o).records = st.records := by simp [grow, hr]
      rw [hrecords] at hpost ⊢
      exact h.course.step_of_silent hs (h.of_accepted hone) hpost hr
    | some r =>
      have hrecords : (st.grow clocks.now s.place t.place o).records = st.records ++ [r] := by simp [grow, hr]
      rw [hrecords]
      exact (h.course.record hs hpre hr).1
  series := by
    cases hr : o.bind Notice.record? with
    | none => simpa [grow, hr] using h.series
    | some r =>
      have hrecords : (st.grow clocks.now s.place t.place o).records = st.records ++ [r] := by simp [grow, hr]
      obtain ⟨-, hu, a, d, again, hp, hcount, hkind⟩ := h.course.record hs hpre hr
      obtain ⟨hcount', -, -, hfinal⟩ := ht.stage hp
      rw [hrecords]
      refine h.series.concat hu (hcount.trans hcount') hkind fun e he => ?_
      -- the key is dropped below the limit only when the queue is shut
      by_contra hlt
      rw [hcount, hcount'] at hlt
      have hclosed := hpre (hfinal e he (Nat.lt_of_not_le hlt))
      rw [hu] at hclosed
      cases hclosed
  marked r hr := by
    rcases List.mem_append.mp hr with hr | hr
    · exact h.marked r hr
    · exact (h.course.retried hs (Option.mem_toList.mp hr)).1

end Story.Lone

variable {setup : Setup} {capacity : Nat} {key : Key} {kind : Trigger} {p q : Pool} {log earlier : Log}
  {steps first : List (Clocks × Action)}

/-- The queue is not shut before the key has settled. A pool that is stopped earlier cuts the
retries off, and the course of the key with them. -/
def OpenUntilSettled (setup : Setup) (capacity : Nat) (key : Key) (steps : List (Clocks × Action)) : Prop :=
  ∀ first q earlier, first <+: steps → run setup (fresh capacity) first = some (q, earlier) →
    q.queue.closed = true → isSettled (recordsOf key earlier) = true

/-- If the queue is open long enough in a run, it is so in the beginning of the run. -/
theorem OpenUntilSettled.of_prefix (h : OpenUntilSettled setup capacity key steps) (hp : first <+: steps) :
    OpenUntilSettled setup capacity key first :=
  fun before q earlier hb => h before q earlier (hb.trans hp)

/-- A queue that is open has never been shut. -/
theorem OpenUntilSettled.of_open (h : run setup (fresh capacity) steps = some (p, log)) (ho : p.queue.closed = false)
    (key : Key) : OpenUntilSettled setup capacity key steps := by
  rintro first q earlier ⟨rest, rfl⟩ hfirst hc
  obtain ⟨q', _, later, hfirst', hrest, -⟩ := run_append_eq_some.mp h
  cases hfirst.symm.trans hfirst'
  have hclosed := ((path_of_run (sound_of_run hfirst) hrest key).closed_of_closed hc).1
  rw [show p.queue.closed = true from hclosed] at ho
  cases ho

/-- Along every run a key that is triggered once is lone, and its story is complete. The induction
goes along the run; a step that leaves the key alone adds nothing to its story. -/
theorem lone_of_run (h : run setup (fresh capacity) steps = some (p, log)) (hone : triggersOf key log <+: [kind])
    (hopen : OpenUntilSettled setup capacity key steps) :
    (story setup key (fresh capacity) steps log).Agrees (p.place key) ∧
      (story setup key (fresh capacity) steps log).Lone setup kind (triggersOf key log) (p.standing key) := by
  induction steps using List.reverseRecOn generalizing p log with
  | nil =>
    cases h
    rw [standing_fresh, place_fresh]
    exact ⟨⟨rfl, rfl, rfl⟩, .untouched setup kind⟩
  | append_singleton steps step ih =>
    obtain ⟨clocks, a⟩ := step
    obtain ⟨q, earlier, notices, o, hrun, -, -, hearlier, htriggers, hstory, hstep⟩ := grow_of_run h hone
    have hpost := hopen _ p _ (List.prefix_refl _) h
    have hopen := hopen.of_prefix (List.prefix_append steps [(clocks, a)])
    have hpre := hopen _ q _ (List.prefix_refl _) hrun
    obtain ⟨hagrees, hlone⟩ := ih hrun hearlier hopen
    rw [htriggers] at hone
    rw [htriggers, hstory]
    -- the step does one thing to the key, or leaves it alone
    rcases hstep with hs | ⟨rfl, hs⟩
    · have htally := tally_of_run hrun key
      refine ⟨hagrees.step hs htally fun hc => ?_, hlone.step hs htally hone hpre ?_⟩
      · exact (hlone.course.of_settled (hpre hc)).1.account
      · show p.queue.closed = true → isSettled (Story.grow _ _ (q.place key) (p.place key) o).records = true
        rw [← hstory]
        exact hpost
    · have hplace : p.place key = q.place key := congrArg Standing.place hs
      rw [hplace, hs, Story.grow_self, Option.bind_none, Option.toList_none, List.append_nil]
      exact ⟨hagrees, hlone⟩

end Pool

end ControlLoop
