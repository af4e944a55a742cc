import Mathlib.Data.List.DropRight
import ControlLoop.Proofs.Pool.Accounts
import ControlLoop.Proofs.Pool.Story

/-!
# What sets an attempt off

A delivery takes along what has been noted about its key, and the attempt is recorded with it. What
has been noted is what was said since the delivery before: a manual trigger outweighs whatever comes
with it, in whatever order, and a failed attempt adds what had set it off itself. It is all
forgotten in the end, but only when every worker has left and there are no more deliveries.

`Standing.Told` says what has been noted at every stage of an attempt, in terms of the log since the
last delivery (`sinceDelivery`). `Standing.Carries` follows an attempt from its delivery to its
record.

The theorem is about a delivery and looks both ways. What has been noted when the key is delivered
is settled by the log before (`toldBy_of_run`), and what the attempt is recorded with by the log
after it (`carries_of_delivered`).
-/

namespace ControlLoop

/-- Was a key delivered? -/
def Notice.isDeliveryOf (key : Key) : Notice → Bool
  | delivered k _ => k = key
  | accepted .. | refused _ | began _ | delayed .. | released _ | recorded _ => false

theorem Notice.concerns_of_isDeliveryOf {key : Key} {n : Notice} (h : n.isDeliveryOf key = true) :
    n.concerns key = true := by
  cases n <;> first | exact h | cases h

namespace Pool

/-- What set off the attempt that a worker makes. -/
def Stage.trigger? : Stage → Option Trigger
  | holding _ kind => some kind
  | handling a | counting a .. | retrying a .. | settled a .. => some a.trigger
  | asking | releasing _ | exited => none

/-- The part of a log since the last delivery of a key, all of it if there was none. What is noted
for the next delivery is told by this part alone. -/
def sinceDelivery (key : Key) (log : Log) : Log := log.rtakeWhile (!·.2.isDeliveryOf key)

/-- A key is not delivered in this part of a log. -/
def Undelivered (key : Key) (log : Log) : Prop := ∀ e ∈ log, e.2.isDeliveryOf key = false

instance (key : Key) (log : Log) : Decidable (Undelivered key log) :=
  inferInstanceAs (Decidable (∀ e ∈ log, e.2.isDeliveryOf key = false))

variable {setup : Setup} {key : Key} {clocks : Clocks} {log later : Log} {t : Moment} {kind : Trigger}

/-! ## The log since a delivery

`sinceDelivery` cuts a log behind the last delivery of a key. It grows by everything but a delivery,
begins anew with one, and does not depend on what is about other keys (`sinceDelivery_about`). -/

theorem undelivered_append : Undelivered key (log ++ later) ↔ Undelivered key log ∧ Undelivered key later :=
  List.forall_mem_append

theorem Undelivered.about (h : Undelivered key log) (k : Key) : Undelivered key (about k log) :=
  fun e he => h e (List.mem_filter.mp he).1

theorem undelivered_toList {o : Option Notice} (now : Moment) :
    Undelivered key (o.toList.map (now, ·)) ↔ ∀ n ∈ o, n.isDeliveryOf key = false := by
  simp [Undelivered]

/-- What is taken down without a delivery is added to the log since the last one. -/
theorem sinceDelivery_append (h : Undelivered key later) :
    sinceDelivery key (log ++ later) = sinceDelivery key log ++ later := by
  induction later using List.reverseRecOn with
  | nil => simp only [List.append_nil]
  | append_singleton later e ih =>
    obtain ⟨hlater, he⟩ := undelivered_append.mp h
    have he : e.2.isDeliveryOf key = false := he e (by simp)
    have hlater := ih hlater
    rw [← List.append_assoc, sinceDelivery, List.rtakeWhile_concat_pos _ _ _ (by simp [he]), ← List.append_assoc,
      ← hlater]
    rfl

theorem sinceDelivery_of_undelivered (h : Undelivered key log) : sinceDelivery key log = log := by
  have hall : ∀ e ∈ log, (!e.2.isDeliveryOf key) = true := fun e he => by simp [h e he]
  exact List.rtakeWhile_eq_self_iff.mpr hall

theorem sinceDelivery_concat (log : Log) (t : Moment) (key : Key) (kind : Trigger) :
    sinceDelivery key (log ++ [(t, .delivered key kind)]) = [] :=
  List.rtakeWhile_concat_neg _ _ _ (by simp [Notice.isDeliveryOf])

theorem sinceDelivery_of_split {before since : Log} (h : Undelivered key since) :
    sinceDelivery key (before ++ (t, .delivered key kind) :: since) = since := by
  rw [List.append_cons, sinceDelivery_append h, sinceDelivery_concat, List.nil_append]

/-- To look only at what is about a key, and to look only at what came since its last delivery, may
be done in either order. -/
theorem sinceDelivery_about (key : Key) (log : Log) :
    sinceDelivery key (about key log) = about key (sinceDelivery key log) := by
  induction log using List.reverseRecOn with
  | nil => rfl
  | append_singleton log e ih =>
    rw [about_append]
    by_cases hd : e.2.isDeliveryOf key = true
    · have he : about key [e] = [e] := List.filter_cons_of_pos (Notice.concerns_of_isDeliveryOf hd)
      rw [he, sinceDelivery, sinceDelivery, List.rtakeWhile_concat_neg _ _ _ (by simp [hd]),
        List.rtakeWhile_concat_neg _ _ _ (by simp [hd])]
      rfl
    · rw [Bool.not_eq_true] at hd
      have hnone : Undelivered key [e] := by simpa [Undelivered] using hd
      rw [sinceDelivery_append hnone, sinceDelivery_append (hnone.about key), about_append, ih]

theorem triggersOf_map {o : Option Notice} (now : Moment) :
    triggersOf key (o.toList.map (now, ·)) = (o.bind (·.acceptedFor? key)).toList := by
  cases o with
  | none => rfl
  | some n => cases hn : n.acceptedFor? key <;> simp [triggersOf, hn]

/-! ## What has been noted

`Standing.Told` is the invariant. Which of its clauses is at stake is decided by how far the attempt
has come: until a worker keeps the kind of a failed attempt only triggers count (`isEarly`); from
there on the attempt itself may be to blame (`Blames`); and once it is recorded, its record is.
`Told.step` shows it for everything that can happen to a key but a delivery, and `ToldBy.turn` for a
turn of the pool. -/

namespace Place

/-- Is an attempt of the key being made? -/
def isUnderWay : Place → Bool
  | held stage _ => stage.trigger?.isSome
  | resting | waiting => false

/-- Has the attempt not come to the retry? -/
def isEarly : Place → Bool
  | held (.holding ..) _ | held (.handling _) _ | held (.counting ..) _ => true
  | resting | waiting | held .. => false

/-- The attempt that is being made, or was made last, was set off manually and has failed, by the
records since its delivery. -/
def Blames (records : List Record) : Place → Prop
  | held (.holding ..) _ | held (.handling _) _ | held (.counting ..) _ | held .asking _ | held .exited _ => False
  | held (.retrying a ..) _ => a.trigger = .manual
  | held (.settled a _ o) _ => a.trigger = .manual ∧ o ≠ .success
  | resting | waiting | held (.releasing _) _ => ∃ r, records = [r] ∧ r.trigger = .manual ∧ r.outcome ≠ .success

theorem isUnderWay_insert (p : Place) : p.insert.isUnderWay = p.isUnderWay := by
  cases p <;> rfl

theorem isEarly_insert (p : Place) : p.insert.isEarly = p.isEarly := by
  cases p with
  | resting | waiting => rfl
  | held stage => cases stage <;> rfl

theorem Blames.insert {records : List Record} {p : Place} (h : p.Blames records) : p.insert.Blames records := by
  cases p with
  | resting | waiting => exact h
  | held stage => cases stage <;> exact h

end Place

/-- A manual trigger outweighs whatever was noted. -/
theorem outweigh_manual (old : Option Trigger) : outweigh .manual old = .manual := by
  cases old <;> rfl

theorem outweigh_of_manual (kind : Trigger) : outweigh kind (some .manual) = .manual := by
  cases kind <;> rfl

theorem manual_of_outweigh {old : Option Trigger} (h : outweigh kind old = .manual) :
    kind = .manual ∨ old = some .manual := by
  cases old with
  | none => exact .inl h
  | some old => cases kind <;> simp_all [outweigh]

/-- What has been noted about a key, by the triggers and the records since its last delivery: it is
manual if one of the triggers was, and otherwise only if the attempt that was delivered then was
manual and has failed. -/
structure Standing.Told (triggers : List Trigger) (records : List Record) (s : Standing) : Prop where
  /-- a manual trigger is noted, whatever else has come -/
  manual : .manual ∈ triggers → s.kind = some .manual
  /-- what is noted as manual is a trigger, or the failure of a manual attempt -/
  reason : s.kind = some .manual → .manual ∈ triggers ∨ s.place.Blames records
  /-- before the retry only triggers are noted -/
  early : s.place.isEarly = true → (s.kind = none ↔ triggers = [])
  /-- an attempt that is being made is not recorded -/
  unrecorded : s.place.isUnderWay = true → records = []

namespace Standing.Told

variable {s u : Standing} {triggers : List Trigger} {records : List Record} {o : Option Notice}

theorem untouched : Told [] [] .untouched := ⟨by simp, nofun, nofun, nofun⟩

theorem of_delivery (h : s.kind = none) : s.Told [] [] := ⟨by simp, by simp [h], by simp [h], by simp⟩

/-- A trigger that is accepted is noted, and outweighs what was noted before if it is manual. -/
theorem accept (h : s.Told triggers records) (kind : Trigger) :
    Told (triggers ++ [kind]) records { s with place := s.place.insert, kind := some (outweigh kind s.kind) } where
  manual hm := by
    rcases List.mem_append.mp hm with hm | hm
    · rw [h.manual hm, outweigh_of_manual]
    · rw [← List.mem_singleton.mp hm, outweigh_manual]
  reason hk := by
    rcases manual_of_outweigh (Option.some.inj hk) with rfl | hs
    · exact .inl (by simp)
    · exact (h.reason hs).imp (List.mem_append_left _) Place.Blames.insert
  early _ := by simp
  unrecorded hu := h.unrecorded ((Place.isUnderWay_insert _).symm.trans hu)

/-- The key comes to another place, and nothing is noted. -/
theorem move (h : s.Told triggers records) {p q : Place} (hp : s.place = p) (hq : u.place = q) (hk : u.kind = s.kind)
    (hb : p.Blames records → q.Blames records) (he : q.isEarly = true → p.isEarly = true)
    (hu : q.isUnderWay = true → p.isUnderWay = true) : u.Told triggers records := by
  subst hp hq
  refine ⟨fun hm => hk.trans (h.manual hm), fun hm => (h.reason (hk.symm.trans hm)).imp_right hb, fun hearly => ?_,
    fun hway => h.unrecorded (hu hway)⟩
  rw [hk]
  exact h.early (he hearly)

/-- A worker keeps what set a failed attempt off, unless something is noted already. -/
theorem keep (h : s.Told triggers records) {a : Attempt} {d : Span} {e : String} {f : Nat} {again : Bool}
    (hp : s.place = .held (.counting a d e f) again) :
    Told triggers records
      { s with place := .held (.retrying a d e f) again, kind := some (s.kind.getD a.trigger) } where
  manual hm := by
    rw [h.manual hm]
    rfl
  reason hk := by
    cases hs : s.kind with
    | none =>
      rw [hs] at hk
      exact .inr (Option.some.inj hk)
    | some old =>
      rw [hs] at hk
      refine (h.reason (hs.trans hk)).imp_right fun hb => ?_
      rw [hp] at hb
      exact hb.elim
  early := nofun
  unrecorded _ := h.unrecorded (by rw [hp]; rfl)

/-- A failed attempt is recorded as what it was. -/
theorem record (h : s.Told triggers records) (key : Key) {a : Attempt} {d : Span} {out : Outcome} {again : Bool}
    {r : Record} (hp : s.place = .held (.settled a d out) again) (ht : r.trigger = a.trigger) (ho : r.outcome = out) :
    Told triggers (records ++ [r]) { s with place := .held (.releasing key) again } where
  manual := h.manual
  reason hk := by
    refine (h.reason hk).imp_right fun hb => ?_
    rw [hp] at hb
    obtain ⟨hmanual, hout⟩ := hb
    refine ⟨r, ?_, ht.trans hmanual, ho ▸ hout⟩
    rw [h.unrecorded (by rw [hp]; rfl), List.nil_append]
  early := nofun
  unrecorded := nofun

/-- Where nothing is noted a record of the supervisor changes nothing. -/
theorem of_nothing (h : s.Told triggers records) (hk : s.kind = none) (hu : u.kind = none)
    (hp : ∀ stage again, u.place ≠ .held stage again) (later : List Record) : u.Told triggers (records ++ later) where
  manual hm := by
    rw [h.manual hm] at hk
    cases hk
  reason hm := by
    rw [hu] at hm
    cases hm
  early he := by
    cases hq : u.place with
    | resting | waiting =>
      rw [hq] at he
      cases he
    | held stage again => exact absurd hq (hp stage again)
  unrecorded hw := by
    cases hq : u.place with
    | resting | waiting =>
      rw [hq] at hw
      cases hw
    | held stage again => exact absurd hq (hp stage again)

/-- Every step but a delivery adds to what has been noted, as long as nothing is forgotten. -/
theorem step (h : s.Told triggers records) (hs : Step setup key clocks s o u)
    (hd : ∀ n ∈ o, n.isDeliveryOf key = false) (hk : s.kind ≠ none → u.kind ≠ none) :
    u.Told (triggers ++ (o.bind (·.acceptedFor? key)).toList) (records ++ (o.bind Notice.record?).toList) := by
  have hquiet (ha : o.bind (·.acceptedFor? key) = none) (hr : o.bind Notice.record? = none)
      (hu : u.Told triggers records) :
      u.Told (triggers ++ (o.bind (·.acceptedFor? key)).toList) (records ++ (o.bind Notice.record?).toList) := by
    rw [ha, hr]
    simpa using hu
  -- only a trigger and a retry note something; a delivery, which takes all along, is left out here
  cases hs with
  | @accept kind ho =>
    have htold := h.accept kind
    simpa [Notice.acceptedFor?, Notice.record?] using htold
  | fire =>
    refine hquiet rfl rfl (h.move rfl rfl rfl Place.Blames.insert ?_ ?_)
    · rw [Place.isEarly_insert]
      exact id
    · rw [Place.isUnderWay_insert]
      exact id
  | deliver => simp [Notice.isDeliveryOf] at hd
  | refuse => exact hquiet rfl rfl h
  | shut => exact hquiet rfl rfl (h.move rfl rfl rfl id id id)
  | begin hp | fail hp => exact hquiet rfl rfl (h.move hp rfl rfl id (fun _ => rfl) fun _ => rfl)
  | succeed hp | drop hp => exact hquiet rfl rfl (h.move hp rfl rfl False.elim (fun he => by cases he) fun _ => rfl)
  | keep hp => exact hquiet rfl rfl (h.keep hp)
  | retryAtOnce hp | retryCovered hp | retryLater hp | retryCancelled hp =>
    exact hquiet rfl rfl (h.move hp rfl rfl (fun hm => ⟨hm, by simp⟩) (fun he => by cases he) fun _ => rfl)
  | @record a d out again n hp =>
    have htold := h.record key hp (r := a.record (Uuid.ofAttempt n) d out) rfl rfl
    simpa [Notice.acceptedFor?, Notice.record?] using htold
  | @release again hp =>
    refine hquiet rfl rfl (h.move hp rfl rfl ?_ ?_ ?_) <;> cases again <;> exact id
  | @abandon account n _ hp =>
    have hnone : s.kind = none := by
      by_contra hsome
      exact hk hsome rfl
    have htold := h.of_nothing (u := { s with account := none, kind := none }) hnone rfl hp
    simpa [Notice.acceptedFor?, Notice.record?] using htold _
  | forget _ hp =>
    have hnone : s.kind = none := by
      by_contra hsome
      exact hk hsome rfl
    have htold := h.of_nothing (u := { s with kind := none }) hnone rfl hp []
    rw [List.append_nil] at htold
    exact hquiet rfl rfl htold

end Standing.Told

/-- What has been noted about a key agrees with a log. -/
def Standing.ToldBy (key : Key) (log : Log) (s : Standing) : Prop :=
  s.Told (triggersOf key (sinceDelivery key log)) (recordsOf key (sinceDelivery key log))

namespace Standing

variable {s u : Standing} {o : Option Notice} {notices : List Notice}

/-- An onlooker takes down nothing about other keys. -/
theorem Step.concerns (hs : Step setup key clocks s o u) : ∀ n ∈ o, n.concerns key = true := by
  cases hs <;> simp_all [Notice.concerns, Attempt.record]

/-- Every step of a key keeps the notes in agreement with the log; a delivery begins a new part of
it. -/
theorem ToldBy.step (h : s.ToldBy key log) (hs : Step setup key clocks s o u)
    (hk : s.kind ≠ none → u.kind ≠ none ∨ ∃ kind, o = some (.delivered key kind)) :
    u.ToldBy key (log ++ o.toList.map (clocks.now, ·)) := by
  by_cases hd : ∃ kind, o = some (.delivered key kind)
  · obtain ⟨kind, rfl⟩ := hd
    rw [ToldBy, Option.toList_some, List.map_singleton, sinceDelivery_concat]
    cases hs
    exact .of_delivery rfl
  · have hnone : ∀ n ∈ o, n.isDeliveryOf key = false := by
      rintro n rfl
      cases n <;> first | rfl | skip
      simp_all [Notice.isDeliveryOf]
    have htold := Told.step h hs hnone fun hs => (hk hs).resolve_right hd
    rw [ToldBy, sinceDelivery_append ((undelivered_toList clocks.now).mpr hnone), triggersOf_append, triggersOf_map,
      recordsOf_append, recordsOf_toList hs.concerns]
    exact htold

/-- Every turn of the pool keeps the notes in agreement with the log, with the notices that are
about the key. -/
theorem ToldBy.turn (h : s.ToldBy key log) (hs : Turn setup key clocks s notices u)
    (hk : s.kind ≠ none → u.kind ≠ none ∨ ∃ kind, .delivered key kind ∈ notices) :
    u.ToldBy key (log ++ notices.map (clocks.now, ·)) := by
  cases hs with
  | idle => simpa using h
  | step hs => exact h.step hs (by simpa using hk)

end Standing

/-! ## When all workers have left

The supervisor forgets in the end what has been noted, and this breaks `Told`. By then every worker
has left, and nothing is delivered any more. So what a run keeps is that the notes agree with the
log or that the pool is `Deserted`, and a delivery, which needs a worker, is never in the second
case. -/

/-- All workers have left. From here on nothing is delivered, so it does not matter what is
noted. -/
def Deserted (p : Pool) : Prop := p.queue.closed = true ∧ ∀ s ∈ p.workers, s = .exited

variable {p q : Pool} {a : Action} {notices : List Notice}

/-- A worker that has left does not move on. -/
theorem Deserted.not_worker (h : p.Deserted) {i : Nat} {stage : Stage} (hs : stage ≠ .exited) :
    p.workers[i]? ≠ some stage := fun hw => hs (h.2 stage (List.mem_of_getElem? hw))

/-- From then on nothing is delivered. -/
theorem Deserted.act (h : p.Deserted) (hp : p.Sound setup) (hact : p.act setup clocks a = some (q, notices)) :
    q.Deserted ∧ ∀ key, ∀ n ∈ notices, n.isDeliveryOf key = false := by
  have hbusy : ∀ {i : Nat} {stage : Stage}, p.workers[i]? = some stage → stage = .exited := fun hw =>
    h.2 _ (List.mem_of_getElem? hw)
  obtain ⟨hc, he⟩ := h
  cases step_of_act hact with
  | accepted ho | put ho =>
    rw [hc] at ho
    cases ho
  | refused => exact ⟨⟨hc, he⟩, by simp [Notice.isDeliveryOf]⟩
  | started hi =>
    rw [hp.closed_eq, (hp.idle hi).2] at hc
    cases hc
  | took hw | left hw | waited hw | released hw | began hw | succeeded hw | failed hw | dropped hw | kept hw
  | retriedAtOnce hw | retryCovered hw | retryDelayed hw | retryRefused hw | recorded hw => cases hbusy hw
  | fired =>
    refine ⟨⟨(Queue.fire_closed ..).trans hc, he⟩, fun key n hn => ?_⟩
    rw [if_pos hc] at hn
    cases hn
  | lapsed => exact ⟨⟨(Queue.fire_closed ..).trans hc, he⟩, by simp⟩
  | shut hs =>
    rw [hp.open_of_endingResync hs] at hc
    cases hc
  | closedOut => exact ⟨⟨hc, he⟩, by simp [Notice.isDeliveryOf]⟩
  | stopRequested | ticked | putLate | resyncEnded | heard | passedOver | forgot | stopped =>
    exact ⟨⟨hc, he⟩, by simp⟩

/-- Only a delivery takes along what has been noted, until all workers have left. -/
theorem kind_of_act (hp : p.Sound setup) (hact : p.act setup clocks a = some (q, notices)) (key : Key) :
    ((p.standing key).kind ≠ none → (q.standing key).kind ≠ none ∨ ∃ kind, .delivered key kind ∈ notices) ∨
      q.Deserted := by
  have hmem : ∀ p : Pool, (p.standing key).kind ≠ none ↔ key ∈ p.kinds := fun p =>
    (Std.ExtTreeMap.mem_iff_isSome_getElem?.trans Option.isSome_iff_ne_none).symm
  by_cases ha : a = .supervise
  · subst ha
    cases step_of_act hact with
    | closedOut hs he | forgot hs he => exact .inr ⟨hp.closed_of_draining hs, he⟩
    | heard | shut | passedOver | stopped => exact .inl .inl
  · refine .inl fun hk => ?_
    rw [hmem] at hk ⊢
    exact mem_kinds_of_act ha hact hk

/-- Every step of the pool keeps the notes in agreement with the log, until all workers have left:
then the supervisor forgets them, and nothing is delivered any more. -/
theorem toldBy_of_act (hp : p.Sound setup) (h : (p.standing key).ToldBy key log ∨ p.Deserted)
    (hact : p.act setup clocks a = some (q, notices)) :
    (q.standing key).ToldBy key (log ++ about key (notices.map (clocks.now, ·))) ∨ q.Deserted := by
  rcases h with h | h
  · refine (kind_of_act hp hact key).imp_left fun hk => ?_
    rw [about_map]
    refine h.turn (turn_of_act hp hact key) fun hs => (hk hs).imp_right ?_
    rintro ⟨kind, hmem⟩
    exact ⟨kind, List.mem_filter.mpr ⟨hmem, by simp [Notice.concerns]⟩⟩
  · exact .inr (h.act hp hact).1

/-- At every moment of every run it has been noted what the log says, as long as a worker is
there. -/
theorem toldBy_of_run {capacity : Nat} {steps : List (Clocks × Action)}
    (h : run setup (fresh capacity) steps = some (p, log)) (key : Key) :
    (p.standing key).ToldBy key (about key log) ∨ p.Deserted := by
  induction steps using List.reverseRecOn generalizing p log with
  | nil =>
    cases h
    rw [standing_fresh]
    exact .inl .untouched
  | append_singleton steps step ih =>
    obtain ⟨clocks, a⟩ := step
    obtain ⟨q, earlier, notices, hrun, hact, rfl⟩ := run_concat_eq_some.mp h
    rw [about_append]
    exact toldBy_of_act (sound_of_run hrun) (ih hrun) hact

/-! ## From the delivery to the record

A worker carries the kind of an attempt from stage to stage and writes it into the record.
`Standing.Carries` says that the attempt is still being made, with this kind, or that the first
record since the delivery has it. Later deliveries and records come behind the first record, so
nothing that happens to the key breaks it. -/

/-- An attempt that was delivered with a kind is being made, or else its record is the first since
the delivery, and has that kind. -/
def Standing.Carries (key : Key) (kind : Trigger) (since : Log) (s : Standing) : Prop :=
  match recordsOf key since with
  | [] => ∃ stage again, s.place = .held stage again ∧ stage.trigger? = some kind
  | r :: _ => r.trigger = kind ∧ (Undelivered key since → s.place.isUnderWay = false)

namespace Standing

variable {s u : Standing} {o : Option Notice} {since : Log}

/-- An attempt begins with a delivery. -/
theorem Step.isUnderWay (hs : Step setup key clocks s o u) (hd : ∀ n ∈ o, n.isDeliveryOf key = false)
    (hu : u.place.isUnderWay = true) : s.place.isUnderWay = true := by
  cases hs with
  | accept | fire => exact (Place.isUnderWay_insert _).symm.trans hu
  | deliver => simp [Notice.isDeliveryOf] at hd
  | begin hp | succeed hp | fail hp | drop hp | keep hp | retryAtOnce hp | retryCovered hp | retryLater hp
  | retryCancelled hp | record hp =>
    rw [hp]
    rfl
  | @release again hp => cases again <;> cases hu
  | refuse | shut | abandon | forget => exact hu

/-- An attempt that is being made keeps its kind to its record. -/
theorem Step.carried (hs : Step setup key clocks s o u) {stage : Stage} {again : Bool}
    (hp : s.place = .held stage again) (hk : stage.trigger? = some kind) :
    (o.bind Notice.record? = none ∧ ∃ stage again, u.place = .held stage again ∧ stage.trigger? = some kind) ∨
      ∃ r, o = some (.recorded r) ∧ r.trigger = kind ∧ u.place.isUnderWay = false := by
  cases hs with
  | accept | fire => exact .inl ⟨rfl, stage, true, by rw [hp]; rfl, hk⟩
  | deliver hp' =>
    rw [hp] at hp'
    cases hp'
  | abandon _ hp' => exact absurd hp (hp' stage again)
  | begin hp' | succeed hp' | fail hp' | drop hp' | keep hp' | retryAtOnce hp' | retryCovered hp' | retryLater hp'
  | retryCancelled hp' =>
    rw [hp] at hp'
    cases hp'
    exact .inl ⟨rfl, _, _, rfl, hk⟩
  | record hp' =>
    rw [hp] at hp'
    cases hp'
    exact .inr ⟨_, rfl, Option.some.inj hk, rfl⟩
  | release hp' =>
    rw [hp] at hp'
    cases hp'
    cases hk
  | refuse | shut | forget => exact .inl ⟨rfl, stage, again, hp, hk⟩

/-- Every step carries an attempt on, up to its record and beyond. -/
theorem Carries.step (h : s.Carries key kind since) (hs : Step setup key clocks s o u) :
    u.Carries key kind (since ++ o.toList.map (clocks.now, ·)) := by
  unfold Carries at h ⊢
  rw [recordsOf_append, recordsOf_toList hs.concerns]
  cases hr : recordsOf key since with
  | nil =>
    rw [hr] at h
    obtain ⟨stage, again, hp, hk⟩ := h
    rcases hs.carried hp hk with ⟨hnone, hcarried⟩ | ⟨r, rfl, htrigger, hway⟩
    · rw [hnone]
      exact hcarried
    · exact ⟨htrigger, fun _ => hway⟩
  | cons r others =>
    rw [hr] at h
    refine ⟨h.1, fun hd => ?_⟩
    obtain ⟨hsince, ho⟩ := undelivered_append.mp hd
    rw [undelivered_toList] at ho
    by_contra hu
    rw [Bool.not_eq_false] at hu
    have hway := hs.isUnderWay ho hu
    rw [h.2 hsince] at hway
    cases hway

/-- Every path carries an attempt on, up to its record and beyond. -/
theorem Carries.of_path {log : Log} (h : s.Carries key kind since) (hpath : Path setup key s log u) :
    u.Carries key kind (since ++ log) := by
  induction hpath with
  | refl =>
    rw [List.append_nil]
    exact h
  | step _ hs ih =>
    rw [← List.append_assoc]
    exact ih.step hs

/-- The first record since a delivery is made of the attempt that was delivered. -/
theorem Carries.head (h : s.Carries key kind since) {r : Record} (hr : (recordsOf key since).head? = some r) :
    r.trigger = kind := by
  unfold Carries at h
  split at h
  · next hnil =>
    rw [hnil] at hr
    cases hr
  · next hcons =>
    rw [hcons] at hr
    obtain rfl := Option.some.inj hr
    exact h.1

/-- When nobody holds the key, the attempt has been recorded. -/
theorem Carries.recorded (h : s.Carries key kind since) (hp : ∀ stage again, s.place ≠ .held stage again) :
    recordsOf key since ≠ [] := by
  intro hnil
  rw [Carries, hnil] at h
  obtain ⟨stage, again, hheld, -⟩ := h
  exact hp stage again hheld

/-- When the attempt has been recorded, none is made until the next delivery. -/
theorem Carries.not_underWay (h : s.Carries key kind since) (hr : recordsOf key since ≠ [])
    (hd : Undelivered key since) : s.place.isUnderWay = false := by
  unfold Carries at h
  split at h
  · next hnil => exact absurd hnil hr
  · exact h.2 hd

/-- Without a delivery there is no record. -/
theorem Path.untried (h : Path setup key .untouched log s) (hd : Undelivered key log) :
    recordsOf key log = [] ∧ s.account = none ∧ ∀ stage again, s.place ≠ .held stage again := by
  induction h with
  | refl => exact ⟨rfl, rfl, by simp [untouched]⟩
  | @step log s u clocks o _ hs ih =>
    obtain ⟨hlog, ho⟩ := undelivered_append.mp hd
    rw [undelivered_toList] at ho
    obtain ⟨hr, ha, hp⟩ := ih hlog
    rw [recordsOf_append, recordsOf_toList hs.concerns, hr, List.nil_append]
    cases hs with
    | accept | fire =>
      refine ⟨rfl, ha, fun stage again hu => ?_⟩
      cases hs : s.place with
      | resting | waiting =>
        simp only [hs] at hu
        cases hu
      | held stage again => exact hp stage again hs
    | deliver => simp [Notice.isDeliveryOf] at ho
    | abandon _ _ hs =>
      rw [ha] at hs
      cases hs
    | refuse | shut | forget => exact ⟨rfl, ha, hp⟩
    | begin hp' | succeed hp' | fail hp' | drop hp' | keep hp' | retryAtOnce hp' | retryCovered hp' | retryLater hp'
    | retryCancelled hp' | record hp' | release hp' => exact absurd hp' (hp _ _)

end Standing

/-- Either nothing was delivered, or something was delivered last. -/
theorem last_delivery (key : Key) (log : Log) :
    Undelivered key log ∨
      ∃ before t kind since, log = before ++ (t, .delivered key kind) :: since ∧ Undelivered key since := by
  induction log using List.reverseRecOn with
  | nil => exact .inl (by simp [Undelivered])
  | append_singleton log e ih =>
    obtain ⟨t, n⟩ := e
    by_cases hn : n.isDeliveryOf key = true
    · obtain ⟨kind, rfl⟩ : ∃ kind, n = .delivered key kind := by
        cases n <;> simp_all [Notice.isDeliveryOf]
      exact .inr ⟨log, t, kind, [], rfl, by simp [Undelivered]⟩
    · have hlast : Undelivered key [(t, n)] := by simpa [Undelivered] using hn
      refine ih.imp (fun hnone => undelivered_append.mpr ⟨hnone, hlast⟩) ?_
      rintro ⟨before, t', kind, since, rfl, hsince⟩
      exact ⟨before, t', kind, since ++ [(t, n)], by simp, undelivered_append.mpr ⟨hsince, hlast⟩⟩

/-! ## The kinds of all attempts

The run is cut at the delivery. Up to there `toldBy_of_run` says what has been noted, and from there
`carries_of_delivered` what is recorded. That a failure among the records since the delivery before
is the failure of what was delivered then is again `Carries`, cut one delivery earlier
(`failedManually_of_run`). -/

/-- A key that waits is delivered in a step of its own, with what has been noted, and not when all
workers have left. -/
theorem of_delivered (hp : p.Sound setup) (hact : p.act setup clocks a = some (q, notices))
    (hn : .delivered key kind ∈ notices) :
    notices = [.delivered key kind] ∧ kind = (p.standing key).kind.getD .auto ∧ (p.standing key).place = .waiting ∧
      ¬p.Deserted := by
  cases step_of_act hact with
  | @took i k rest hw _ hpending =>
    obtain ⟨rfl, rfl⟩ : key = k ∧ kind = p.kindOf k := by simpa using hn
    have hwait : key ∈ p.queue.pending := by
      rw [hpending]
      exact List.mem_cons_self
    exact ⟨rfl, rfl, hp.place_of_pending hwait, fun h => h.not_worker (by simp) hw⟩
  | fired => split at hn <;> simp at hn
  | _ => simp at hn

/-- The attempt that was delivered last was manual, and has failed. -/
def FailedManually (key : Key) (log : Log) : Prop :=
  ∃ before t since r, log = before ++ (t, .delivered key .manual) :: since ∧ Undelivered key since ∧
    recordsOf key since = [r] ∧ r.trigger = .manual ∧ r.outcome ≠ .success

/-- After a delivery the attempt is carried on with its kind. -/
theorem carries_of_delivered {capacity : Nat} {steps : List (Clocks × Action)} {before since : Log}
    (h : run setup (fresh capacity) steps = some (p, before ++ (t, .delivered key kind) :: since)) :
    (p.standing key).Carries key kind (about key since) := by
  obtain ⟨s, clocks, s', -, hs, -, hpath⟩ := exists_step_of_run h (decide_eq_true (Eq.refl key))
  have hstart : s'.Carries key kind [] := by
    cases hs
    exact ⟨_, _, rfl, rfl⟩
  have hend := hstart.of_path hpath
  rwa [List.nil_append] at hend

/-- A manual failure since the last delivery is that of the attempt which was delivered then. -/
theorem failedManually_of_run {capacity : Nat} {steps : List (Clocks × Action)} {r : Record}
    (h : run setup (fresh capacity) steps = some (p, log)) (hr : recordsOf key (sinceDelivery key log) = [r])
    (ht : r.trigger = .manual) (ho : r.outcome ≠ .success) : FailedManually key log := by
  rcases last_delivery key log with hnone | ⟨before, t, kind, since, rfl, hsince⟩
  · have hpath : Standing.Path setup key .untouched (about key log) (p.standing key) := by
      rw [← standing_fresh capacity key]
      exact path_of_run (sound_fresh setup capacity) h key
    rw [sinceDelivery_of_undelivered hnone, ← recordsOf_about, (hpath.untried (hnone.about key)).1] at hr
    cases hr
  · rw [sinceDelivery_of_split hsince] at hr
    have hkind : r.trigger = kind := by
      refine (carries_of_delivered h).head ?_
      rw [recordsOf_about, hr]
      rfl
    obtain rfl := hkind.symm.trans ht
    exact ⟨before, t, since, r, rfl, hsince, hr, ht, ho⟩

/-- **What sets an attempt off**: an attempt is manual if a manual trigger was accepted since the
delivery before it, whatever else came; and only then, or if the attempt before it was manual itself
and failed. It is recorded as what it was delivered. -/
theorem kinds_are_attributed {capacity : Nat} {steps : List (Clocks × Action)} {before after : Log}
    (h : run setup (fresh capacity) steps = some (p, before ++ (t, .delivered key kind) :: after)) :
    (.manual ∈ triggersOf key (sinceDelivery key before) → kind = .manual) ∧
      (kind = .manual → .manual ∈ triggersOf key (sinceDelivery key before) ∨ FailedManually key before) ∧
      ∀ r, (recordsOf key after).head? = some r → r.trigger = kind := by
  obtain ⟨first, clocks, a, second, q, q', earlier, later, early, late, hfirst, hact, -, -, rfl, -, -⟩ :=
    exists_act_of_run h
  have hn : .delivered key kind ∈ early ++ .delivered key kind :: late := by simp
  -- the key was delivered in a step of its own, with the kind that was noted
  obtain ⟨hnotices, hkind, hplace, hthere⟩ := of_delivered (sound_of_run hfirst) hact hn
  obtain ⟨rfl, -⟩ : early = [] ∧ late = [] := by
    simpa using List.append_eq_singleton_iff.mp hnotices
  rw [List.map_nil, List.append_nil] at h ⊢
  have htold := (toldBy_of_run hfirst key).resolve_right hthere
  rw [Standing.ToldBy, sinceDelivery_about, triggersOf_about, recordsOf_about] at htold
  -- the kind from what was noted, twice, and the record from what is carried on
  refine ⟨fun hm => ?_, fun hm => ?_, fun r hr => ?_⟩
  · rw [hkind, htold.manual hm]
    rfl
  · have hmanual : (q.standing key).kind = some .manual := by
      cases hk : (q.standing key).kind with
      | none =>
        rw [hk] at hkind
        cases hkind.symm.trans hm
      | some old =>
        rw [hk] at hkind
        exact congrArg some (hkind.symm.trans hm)
    refine (htold.reason hmanual).imp_right fun hblames => ?_
    rw [hplace] at hblames
    obtain ⟨r, hr, htrigger, hout⟩ := hblames
    exact failedManually_of_run hfirst hr htrigger hout
  · rw [← recordsOf_about] at hr
    exact (carries_of_delivered h).head hr

/-- A manual attempt fails, and the resync triggers the key before its retry: the retry is manual
all the same, and for no other reason than the failure. -/
theorem kinds_are_attributed_on_retry :
    ∃ p before after, run ⟨1, 5, .fixed Span.zero, none⟩ (fresh 10) (allAt ⟨0, .epoch⟩
        [.trigger "a" .manual, .run, .work 0, .work 0, .finish 0 (.failure ⟨"down"⟩), .work 0, .work 0, .work 0,
          .trigger "a" .auto, .work 0, .work 0, .work 0, .finish 0 .success, .work 0]) =
          some (p, before ++ (0, .delivered "a" .manual) :: after) ∧
      triggersOf "a" (sinceDelivery "a" before) = [.auto] ∧ FailedManually "a" before ∧
      (recordsOf "a" after).map (·.trigger) = [.manual] := by
  generalize hr : run _ _ _ = c
  have hseen : c.map (fun c => (triggersOf "a" (sinceDelivery "a" (c.2.take 5)), c.2.drop 5)) =
      some ([.auto], [(0, .delivered "a" .manual), (0, .began "a"),
        (0, .recorded ⟨.ofAttempt 1, "a", .manual, .epoch, Span.zero, .success, 1⟩)]) := by
    rw [← hr]
    decide +kernel
  obtain ⟨⟨p, log⟩, rfl, hmap⟩ := Option.map_eq_some_iff.mp hseen
  obtain ⟨htriggers, hdrop⟩ := Prod.mk.inj hmap
  have hlog := (congrArg (log.take 5 ++ ·) hdrop).symm.trans (List.take_append_drop 5 log)
  rw [← hlog] at hr
  obtain ⟨-, hreason, -⟩ := kinds_are_attributed hr
  rw [htriggers] at hreason
  exact ⟨p, log.take 5, _, by rw [hlog], htriggers, (hreason rfl).resolve_left (by simp), by decide +kernel⟩

end Pool

end ControlLoop
