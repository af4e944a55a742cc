import ControlLoop.Proofs.Pool.RetryLaw

/-!
# No failing key is stranded

A key with an open account has failed and is owed another attempt. The account, what sets the
attempt off and the place of the key are kept apart, and change at different moments; all the same,
wherever an account is open somebody sees to the key: a worker holds it, or it waits, or a timer
will put it in, or the supervisor has still to close its account.

`Standing.Minded` says so at every stage of an attempt. Only the supervisor shuts the queue and
forgets kinds (`closed_of_act`, `mem_kinds_of_act`); what anybody else does keeps a key minded
whatever its standing (`Standing.Minded.step`), and each step of the supervisor is looked at by
itself.

A pool without workers is a case of its own (`unmanned_of_act`): there nothing is handled, so no
account is ever opened, and the supervisor may end at once.
-/

namespace ControlLoop.Pool

/-- Nobody puts the key in any more: it rests, or its holder is about to give it back unmarked. An
open account of such a key is the business of a timer or of the supervisor. -/
def Place.isLoose : Place → Bool
  | resting | held (.settled ..) false | held (.releasing _) false => true
  | waiting | held .. => false

/-- What sets the next delivery of the key off has been said: it is not held, or its attempt has
come to the retry. -/
def Place.isTold : Place → Bool
  | resting | waiting | held (.retrying ..) _ | held (.settled ..) _ | held (.releasing _) _ => true
  | held .. => false

/-- If the account of the key is open, it counts a failure at least, and somebody sees to the key: a
worker, the queue, a timer, or the supervisor, if the key is `listed` among those whose accounts it
has still to close. -/
structure Standing.Minded (listed : Prop) (s : Standing) : Prop where
  /-- the account counts a failure -/
  counted : ∀ account, s.account = some account → 1 ≤ account.failures
  /-- a key that nobody puts in is put in by a timer, or closed out -/
  awaited : s.account ≠ none → s.place.isLoose = true → s.delayed ≠ none ∨ listed
  /-- what sets the next delivery off is known -/
  told : s.account ≠ none → s.place.isTold = true → s.kind ≠ none

namespace Standing.Minded

variable {setup : Setup} {key : Key} {clocks : Clocks} {s t : Standing} {listed later : Prop}

/-- A key without an account needs nobody to see to it. -/
theorem of_no_account (h : s.account = none) : s.Minded listed where
  counted account ha := by
    rw [h] at ha
    cases ha
  awaited ha := absurd h ha
  told ha := absurd h ha

/-- A worker has the key in hand, and has not come to the retry. -/
theorem of_busy (hc : ∀ account, s.account = some account → 1 ≤ account.failures) (hl : s.place.isLoose = false)
    (ht : s.place.isTold = false) : s.Minded listed where
  counted := hc
  awaited _ hp := by
    rw [hl] at hp
    cases hp
  told _ hp := by
    rw [ht] at hp
    cases hp

theorem mono (h : s.Minded listed) (hl : listed → later) : s.Minded later :=
  ⟨h.counted, fun ha hp => (h.awaited ha hp).imp_right hl, h.told⟩

/-- The key is put in: it is not loose any more. -/
theorem insert (h : s.Minded listed) (hk : s.kind ≠ none → t.kind ≠ none) (hp : t.place = s.place.insert)
    (ha : t.account = s.account) : t.Minded listed where
  counted := ha ▸ h.counted
  awaited _ hloose := by
    rw [hp] at hloose
    cases hs : s.place with
    | resting | waiting =>
      rw [hs] at hloose
      cases hloose
    | held stage again =>
      rw [hs] at hloose
      cases stage <;> cases hloose
  told hacc htold := by
    refine hk (h.told (ha ▸ hacc) ?_)
    rw [hp] at htold
    cases hs : s.place with
    | resting | waiting => rfl
    | held stage again =>
      rw [hs] at htold
      cases stage <;> first | rfl | cases htold

/-- A worker moves on, and what it moves to asks for no more than what it leaves. -/
theorem move (h : s.Minded listed) {p : Place} (hl : p.isLoose = true → s.place.isLoose = true ∨ s.delayed ≠ none)
    (ht : p.isTold = true → s.place.isTold = true) : Minded listed { s with place := p } where
  counted := h.counted
  awaited ha hp := by
    rcases hl hp with hp | hd
    · exact h.awaited ha hp
    · exact .inl hd
  told ha hp := h.told ha (ht hp)

/-- While the queue is not being shut and no kind is forgotten, every step keeps a key minded. A
failure opens the account, and from there on a mark, a place in the queue or a timer is handed on
from one step to the next. -/
theorem step {o : Option Notice} (h : s.Minded listed) (hs : Step setup key clocks s o t) (hc : t.closed = s.closed)
    (hk : s.kind ≠ none → t.kind = none → ∃ kind, o = some (.delivered key kind)) : t.Minded listed := by
  cases hs with
  | accept => exact h.insert (fun _ => by simp) rfl rfl
  | fire => exact h.insert id rfl rfl
  | refuse => exact h
  -- nothing is asked of a key that is being handled
  | deliver | begin => exact of_busy h.counted rfl rfl
  | succeed | drop | retryCancelled | abandon => exact of_no_account rfl
  | fail hp =>
    refine of_busy (fun account ha => ?_) rfl rfl
    obtain rfl := Option.some.inj ha
    exact Nat.succ_le_succ (Nat.zero_le _)
  | keep => exact ⟨h.counted, fun _ hl => absurd hl (by simp [Place.isLoose]), fun _ _ => by simp⟩
  | retryAtOnce hp => exact h.move (fun hl => by cases hl) fun _ => by rw [hp]; rfl
  | retryCovered hp ho hd hm => exact h.move (fun _ => .inr (by simp [hm])) fun _ => by rw [hp]; rfl
  | retryLater hp =>
    refine ⟨h.counted, fun _ _ => .inl (by simp), fun ha _ => h.told ha ?_⟩
    rw [hp]
    rfl
  | @record a d o again n hp =>
    refine h.move (fun hl => .inl ?_) fun _ => by rw [hp]; rfl
    cases again with
    | true => cases hl
    | false =>
      rw [hp]
      rfl
  | @release again hp =>
    cases again with
    | true => exact h.move (fun hl => by cases hl) fun _ => by rw [hp]; rfl
    | false => exact h.move (fun _ => .inl (by rw [hp]; rfl)) fun _ => by rw [hp]; rfl
  -- the last two are steps of the supervisor, and left out here
  | shut ho =>
    rw [ho] at hc
    cases hc
  | forget =>
    refine ⟨h.counted, h.awaited, fun ha hp _ => ?_⟩
    obtain ⟨kind, hnone⟩ := hk (h.told ha hp) rfl
    cases hnone

/-- Every turn of the pool keeps a key minded: it is one step of the key, or none. -/
theorem turn {notices : List Notice} (h : s.Minded listed) (hs : Turn setup key clocks s notices t)
    (hc : t.closed = s.closed) (hk : s.kind ≠ none → t.kind = none → ∃ kind, .delivered key kind ∈ notices) :
    t.Minded listed := by
  cases hs with
  | idle => exact h
  | step hs =>
    refine h.step hs hc fun hs ht => ?_
    obtain ⟨kind, hmem⟩ := hk hs ht
    exact ⟨kind, Option.mem_toList.mp hmem⟩

end Standing.Minded

/-! ## What only the supervisor does

Whoever sees to a key is taken from it by the supervisor only: the timers are gone when the queue is
shut, and the kinds at the end. Of every other step it is enough to know that it does not shut the
queue, takes a kind away only with a delivery, and leaves the list of the supervisor as it is. -/

variable {setup : Setup} {clocks : Clocks} {p q : Pool} {key : Key} {a : Action} {notices : List Notice}

/-- Nobody else shuts the queue. -/
theorem closed_of_act (ha : a ≠ .supervise) (h : p.act setup clocks a = some (q, notices)) :
    q.queue.closed = p.queue.closed := by
  cases step_of_act h with
  | accepted | put | retriedAtOnce => exact Queue.insert_closed ..
  | released => exact Queue.done_closed ..
  | fired | lapsed => exact Queue.fire_closed ..
  | heard | shut | passedOver | closedOut | forgot | stopped => exact absurd rfl ha
  | _ => rfl

/-- Nobody else forgets what sets a delivery off; a delivery takes it along. -/
theorem mem_kinds_of_act (ha : a ≠ .supervise) (h : p.act setup clocks a = some (q, notices)) (hk : key ∈ p.kinds) :
    key ∈ q.kinds ∨ ∃ kind, .delivered key kind ∈ notices := by
  cases step_of_act h with
  | accepted | put => exact .inl (Std.ExtTreeMap.mem_insert.mpr (.inr hk))
  | @took i k rest =>
    by_cases hkey : k = key
    · subst hkey
      exact .inr ⟨_, List.mem_singleton_self _⟩
    · refine .inl (Std.ExtTreeMap.mem_erase.mpr ⟨?_, hk⟩)
      exact mt Std.compare_eq_iff_eq.mp hkey
  | kept => exact .inl (Std.ExtTreeMap.mem_insertIfNew.mpr (.inr hk))
  | heard | shut | passedOver | closedOut | forgot | stopped => exact absurd rfl ha
  | _ => exact .inl hk

/-- The keys whose accounts the supervisor has still to close. -/
def Supervisor.cancelled : Supervisor → List Key
  | draining cancelled => cancelled
  | absent | listening | endingResync | closing | finished => []

/-- Nobody else changes which accounts are still to be closed; a pool that starts has none of
them. -/
theorem cancelled_of_act (h : p.Sound setup) (ha : a ≠ .supervise) (hact : p.act setup clocks a = some (q, notices)) :
    q.supervisor.cancelled = p.supervisor.cancelled := by
  cases step_of_act hact with
  | started hi =>
    rw [(h.idle hi).2]
    rfl
  | heard | shut | passedOver | closedOut | forgot | stopped => exact absurd rfl ha
  | _ => rfl

/-! ## Every key is minded

`Pool.Minded` is `Standing.Minded` of each key, where the list is that of the supervisor. The steps
of the supervisor hand the delayed keys over to the list and strike them off it. Before it forgets
the kinds the list is empty, the queue is empty and all workers have left, so nobody is left who
could see to an open account; hence there is none (`Minded.account_eq_none`). -/

/-- Every key with an open account is seen to. What the supervisor has still to close is read off
its list. -/
def Minded (p : Pool) : Prop := ∀ key, (p.standing key).Minded (key ∈ p.supervisor.cancelled)

theorem minded_fresh (capacity : Nat) : (fresh capacity).Minded := by
  intro key
  rw [standing_fresh]
  exact .of_no_account rfl

/-- Before the supervisor forgets the kinds, the last account has been closed. -/
theorem Minded.account_eq_none (h : p.Minded) (hp : p.Sound setup) (hc : p.queue.closed = true)
    (hn : p.supervisor.cancelled = []) (hw : p.workers ≠ []) (he : ∀ s ∈ p.workers, s = .exited) (key : Key) :
    p.accounts[key]? = none := by
  by_contra ha
  have hrest : p.place key = .resting := by
    have hseat : p.seat key = none := by
      rw [seat_eq_none_iff, mem_held]
      rintro ⟨s, hs, hk⟩
      rw [he s hs] at hk
      cases hk
    exact place_of_not_pending hseat (by simp [hp.drained hw he])
  have hloose : (p.standing key).place.isLoose = true := congrArg Place.isLoose hrest
  rcases (h key).awaited ha hloose with hd | hl
  · exact hd (hp.queue.delayed_eq_none hc key)
  · rw [hn] at hl
    cases hl

/-- The supervisor keeps every key minded. When it shuts the queue the delayed keys lose their
timers and come on its list instead; it takes a key off the list only when it closes its account, or
finds it closed; and it forgets the kinds only when all workers have left and no account is open any
more. -/
theorem Minded.supervise (h : p.Minded) (hp : p.Sound setup) (hw : 1 ≤ setup.workers)
    (hact : p.act setup clocks .supervise = some (q, notices)) : q.Minded := by
  intro key
  cases step_of_act hact with
  | heard hs => exact (h key).mono fun hl => by simp [hs, Supervisor.cancelled] at hl
  | shut hs =>
    rw [standing_shut hp hs]
    refine ⟨(h key).counted, fun ha hloose => .inr ?_, (h key).told⟩
    -- a loose key had a timer until now, and is among those that shutting returns
    rcases (h key).awaited ha hloose with hd | hl
    · rw [Queue.shutDown_of_open (hp.open_of_endingResync hs)]
      exact Std.ExtTreeMap.mem_keys.mpr (Std.ExtTreeMap.mem_iff_isSome_getElem?.mpr (Option.isSome_iff_ne_none.mpr hd))
    · simp [hs, Supervisor.cancelled] at hl
  | @passedOver k cancelled hs he ha =>
    by_cases hk : k = key
    · subst hk
      exact .of_no_account ha
    · refine (h key).mono fun hl => ?_
      rw [hs] at hl
      exact (List.mem_cons.mp hl).resolve_left fun heq => hk heq.symm
  | @closedOut k cancelled account hs he ha =>
    -- the key whose account is closed has none, and all others stand as they stood
    have hstanding := standing_close_account p k key
    by_cases hk : k = key
    · refine .of_no_account (?_ : (p.accounts.erase k)[key]? = none)
      subst hk
      exact Std.ExtTreeMap.getElem?_erase_self
    · rw [if_neg hk, if_neg hk] at hstanding
      have hmono : (p.standing key).Minded (key ∈ cancelled) := (h key).mono fun hl => by
        rw [hs] at hl
        exact (List.mem_cons.mp hl).resolve_left fun heq => hk heq.symm
      exact hstanding ▸ hmono
  | forgot hs he =>
    refine .of_no_account ?_
    refine h.account_eq_none hp (hp.closed_of_draining hs) (by rw [hs]; rfl) ?_ he key
    refine hp.workers_ne_nil hw fun hi => ?_
    rw [(hp.idle hi).2] at hs
    cases hs
  | stopped hs => exact (h key).mono fun hl => by simp [hs, Supervisor.cancelled] at hl

/-- Every step keeps every key minded: a step of the supervisor by `Minded.supervise`, any other
because it does not shut the queue and takes no kind away but with a delivery. -/
theorem minded_of_act (h : p.Minded) (hp : p.Sound setup) (hw : 1 ≤ setup.workers)
    (hact : p.act setup clocks a = some (q, notices)) : q.Minded := by
  by_cases ha : a = .supervise
  · subst ha
    exact h.supervise hp hw hact
  · intro key
    rw [cancelled_of_act hp ha hact]
    refine (h key).turn (turn_of_act hp hact key) (closed_of_act ha hact) fun hs ht => ?_
    have hk : key ∈ p.kinds := Std.ExtTreeMap.mem_iff_isSome_getElem?.mpr (Option.isSome_iff_ne_none.mpr hs)
    rcases mem_kinds_of_act ha hact hk with hk | ⟨kind, hmem⟩
    · rw [Std.ExtTreeMap.mem_iff_isSome_getElem?, Option.isSome_iff_ne_none] at hk
      exact absurd ht hk
    · exact ⟨kind, List.mem_filter.mpr ⟨hmem, decide_eq_true rfl⟩⟩

/-- Without workers nothing fails. -/
theorem unmanned_of_act (hw : setup.workers = 0) (h : p.workers = [] ∧ p.accounts = ∅)
    (hact : p.act setup clocks a = some (q, notices)) : q.workers = [] ∧ q.accounts = ∅ := by
  cases step_of_act hact with
  | started => exact ⟨congrArg (List.replicate · Stage.asking) hw, h.2⟩
  | closedOut hs he ha =>
    rw [h.2, Std.ExtTreeMap.getElem?_empty] at ha
    cases ha
  | took hw | left hw | waited hw | released hw | began hw | succeeded hw | failed hw | dropped hw | kept hw
  | retriedAtOnce hw | retryCovered hw | retryDelayed hw | retryRefused hw | recorded hw =>
    rw [h.1] at hw
    cases hw
  | accepted | refused | stopRequested | fired | lapsed | ticked | put | putLate | resyncEnded | heard | shut
  | passedOver | forgot | stopped => exact h

/-- Along every run every key is minded. The induction goes along the run, with `Sound` and `Tally`
beside it. -/
theorem minded_of_run {capacity : Nat} {steps : List (Clocks × Action)} {log : Log}
    (h : run setup (fresh capacity) steps = some (p, log)) : p.Minded := by
  rcases Nat.eq_zero_or_pos setup.workers with hw | hw
  · have hnone := run_keeps (fun p => p.workers = [] ∧ p.accounts = ∅) (unmanned_of_act hw) ⟨rfl, rfl⟩ h
    refine fun key => .of_no_account ?_
    show p.accounts[key]? = none
    rw [hnone.2, Std.ExtTreeMap.getElem?_empty]
  · have hkeeps := run_keeps (fun p => p.Sound setup ∧ p.Minded)
      (fun hp hact => ⟨sound_of_act hp.1 hact, minded_of_act hp.2 hp.1 hw hact⟩)
      ⟨sound_fresh setup capacity, minded_fresh capacity⟩ h
    exact hkeeps.2

/-- The account counts no more failures than the limit allows, but for the moment before a worker
looks at the limit. -/
theorem Tally.failures_le {limit : Nat} {records : List Record} {s : Standing} (h : Tally limit records s) :
    s.failures ≤ limit ∨ ∃ a d e f again, s.place = .held (.counting a d e f) again := by
  have hle := h.law.expectedCount_le
  have hplace := h.place
  cases hp : s.place with
  | resting | waiting =>
    rw [hp] at hplace
    exact .inl (Nat.le_trans (Nat.le_of_eq hplace) hle)
  | held stage again =>
    have hstage := h.stage hp
    cases stage with
    | counting a d e f => exact .inr ⟨a, d, e, f, again, rfl⟩
    | asking | exited | holding | releasing => exact .inl (Nat.le_trans (Nat.le_of_eq hstage) hle)
    | handling a => exact .inl (Nat.le_trans (Nat.le_of_eq hstage.2) hle)
    | retrying a d e f =>
      obtain ⟨-, -, hf, hfle⟩ := hstage
      exact .inl (hf ▸ hfle)
    | settled a d o =>
      obtain ⟨-, hf, hlt, -⟩ := hstage
      refine .inl ?_
      rw [hf]
      cases o with
      | success | failureFinal => exact Nat.zero_le _
      | failure e => exact hlt e rfl

/-- Somebody sees to a key whose account is open: it counts a failure at least, and no more than are
forgiven unless a worker has not yet looked at the limit; and the key is held, or waits, or a timer
or the supervisor has it. -/
structure SeenTo (setup : Setup) (p : Pool) (key : Key) (account : Account) : Prop where
  /-- the account counts a failure at least -/
  counted : 1 ≤ account.failures
  /-- and no more than the limit allows, unless a worker has counted a failure and not yet looked at
  the limit -/
  le_limit : account.failures ≤ setup.retryLimit ∨ ∃ a d e f, .counting a d e f ∈ p.workers ∧ a.key = key
  /-- a worker holds the key, or it waits, or a timer puts it in, or the supervisor has still to
  close the account -/
  placed : key ∈ p.queue.processing ∨ key ∈ p.queue.pending ∨
    (p.queue.closed = false ∧ ∃ m, p.queue.delayed[key]? = some m) ∨
    (p.queue.closed = true ∧ ∃ cancelled, p.supervisor = .draining cancelled ∧ key ∈ cancelled)
  /-- unless a worker holds the key, it is known what sets its next delivery off -/
  told : key ∉ p.queue.processing → ∃ kind, p.kinds[key]? = some kind

/-- **No failing key is stranded**: at every moment of every run somebody sees to each key whose
account is open. The count comes from the `Tally` of the key, and the rest from `Minded`: whether
the key waits is asked of the queue, and if it does not, whether a timer or the supervisor is left
to see to it. -/
theorem no_failing_key_stranded {capacity : Nat} {steps : List (Clocks × Action)} {log : Log} {account : Account}
    (h : run setup (fresh capacity) steps = some (p, log)) (ha : p.accounts[key]? = some account) :
    p.SeenTo setup key account := by
  have hsound := sound_of_run h
  have hminded := minded_of_run h key
  have hopen : (p.standing key).account ≠ none := by
    rw [standing, ha]
    simp
  have hfree : key ∉ p.queue.processing → p.seat key = none := by
    rw [hsound.mem_processing, seat_eq_none_iff]
    exact id
  refine ⟨hminded.counted account ha, ?_, ?_, fun hout => ?_⟩
  · have hfailures : (p.standing key).failures = account.failures := by
      rw [Standing.failures, standing, ha]
    rw [← hfailures]
    refine (tally_of_run h key).failures_le.imp_right ?_
    rintro ⟨a, d, e, f, again, hp⟩
    have hseat : p.seat key = some (.counting a d e f) := seat_of_place hp
    obtain ⟨hmem, hk⟩ := mem_of_seat hseat
    exact ⟨a, d, e, f, hmem, Option.some.inj hk⟩
  · by_cases hout : key ∈ p.queue.processing
    · exact .inl hout
    by_cases hwait : key ∈ p.queue.pending
    · exact .inr (.inl hwait)
    -- the key rests, so a timer or the supervisor sees to it
    have hloose : (p.standing key).place.isLoose = true :=
      congrArg Place.isLoose (place_of_not_pending (hfree hout) hwait)
    refine .inr (.inr ((hminded.awaited hopen hloose).imp (fun hd => ?_) fun hl => ?_))
    · obtain ⟨m, hm⟩ := Option.ne_none_iff_exists'.mp hd
      exact ⟨(hsound.queue.fire_of_delayed hm).1, m, hm⟩
    · cases hs : p.supervisor with
      | draining cancelled => exact ⟨hsound.closed_of_draining hs, cancelled, rfl, by rwa [hs] at hl⟩
      | absent | listening | endingResync | closing | finished =>
        rw [hs] at hl
        cases hl
  · refine Option.ne_none_iff_exists'.mp (hminded.told hopen ?_)
    by_cases hwait : key ∈ p.queue.pending
    · exact congrArg Place.isTold (place_of_pending (hfree hout) hwait)
    · exact congrArg Place.isTold (place_of_not_pending (hfree hout) hwait)

/-- A key fails, its retry is put off, and the pool is about to stop. -/
theorem no_failing_key_stranded_by_stop :
    ∃ p log, run ⟨1, 1, .fixed (Span.ofMillis 100), none⟩ (fresh 10) (allAt ⟨0, .epoch⟩
        [.run, .trigger "a" .manual, .work 0, .work 0, .finish 0 (.failure ⟨"down"⟩), .work 0, .work 0, .work 0,
          .work 0, .stop, .supervise, .supervise]) = some (p, log) ∧
      p.accounts["a"]? = some ⟨1, "down"⟩ ∧ p.supervisor = .draining ["a"] ∧
      p.SeenTo ⟨1, 1, .fixed (Span.ofMillis 100), none⟩ "a" ⟨1, "down"⟩ := by
  generalize hr : run _ _ _ = r
  have hseen : r.map (fun r => (r.1.accounts["a"]?, r.1.supervisor)) = some (some ⟨1, "down"⟩, .draining ["a"]) := by
    rw [← hr]
    decide +kernel
  obtain ⟨⟨p, log⟩, rfl, hmap⟩ := Option.map_eq_some_iff.mp hseen
  simp only [Prod.mk.injEq] at hmap
  exact ⟨p, log, rfl, hmap.1, hmap.2, no_failing_key_stranded hr hmap.1⟩

end ControlLoop.Pool
