import ControlLoop.Proofs.Pool.Kinds

/-!
# When a retry stays manual

A retry should be of the kind of the attempt that failed. A worker that sees to a retry keeps the
kind, but only if nothing has been noted about the key; what was noted while the attempt was made
stands as it is. So a trigger of the resync that comes too early, before the worker sees to the
retry, takes the place of the manual kind, and one that comes later is outweighed by it.
`retry_is_manual_iff` tells the two cases apart: the next record after a manual failure is manual
exactly if the key was not triggered between the delivery and the retry, or was triggered manually
at some time before its next delivery.

The two parts of the condition belong to two parts of the run. During the attempt it is decided
whether the manual kind is kept (`told_of_counting`, `kind_of_kept`); after that a manual trigger
may still be added, until the key is delivered again (`Standing.Relays`).
-/

namespace ControlLoop.Pool

/-- The part of a log before the next delivery of a key, all of it if there is none. -/
def untilDelivery (key : Key) (log : Log) : Log := log.takeWhile (!·.2.isDeliveryOf key)

/-- Since a worker has seen to a retry it is noted whether the retry is manual: `carried`, or made
so by a trigger. When all workers have left it is forgotten in the end. -/
def Standing.Relays (key : Key) (carried : Prop) (log : Log) (s : Standing) : Prop :=
  (∃ kind, s.kind = some kind ∧ (kind = .manual ↔ carried ∨ .manual ∈ triggersOf key log)) ∨
    (s.closed = true ∧ s.kind = none ∧ ∀ stage again, s.place ≠ .held stage again)

variable {setup : Setup} {key : Key} {clocks : Clocks} {log : Log} {t : Moment} {kind : Trigger} {carried : Prop}

/-! ## The next delivery

`untilDelivery` looks from a moment of the run forward, as `sinceDelivery` looks back. -/

/-- Where nothing is delivered all of the log comes before the next delivery. -/
theorem untilDelivery_of_undelivered (h : Undelivered key log) : untilDelivery key log = log :=
  List.takeWhile_eq_self_iff.mpr fun e he => by simp [h e he]

theorem untilDelivery_of_split {before after : Log} (h : Undelivered key before) :
    untilDelivery key (before ++ (t, .delivered key kind) :: after) = before := by
  have hbefore : ∀ e ∈ before, (!e.2.isDeliveryOf key) = true := fun e he => by simp [h e he]
  rw [untilDelivery, List.takeWhile_append_of_pos hbefore, List.takeWhile_cons_of_neg (by simp [Notice.isDeliveryOf]),
    List.append_nil]

/-- Either nothing is delivered, or something is delivered first. -/
theorem first_delivery (key : Key) (log : Log) :
    Undelivered key log ∨
      ∃ before t kind after, log = before ++ (t, .delivered key kind) :: after ∧ Undelivered key before := by
  induction log with
  | nil => exact .inl (by simp [Undelivered])
  | cons e log ih =>
    obtain ⟨t, n⟩ := e
    by_cases hn : n.isDeliveryOf key = true
    · obtain ⟨kind, rfl⟩ : ∃ kind, n = .delivered key kind := by
        cases n <;> simp_all [Notice.isDeliveryOf]
      exact .inr ⟨[], t, kind, log, rfl, by simp [Undelivered]⟩
    · have hfirst : Undelivered key [(t, n)] := by simpa [Undelivered] using hn
      refine ih.imp (fun hnone => undelivered_append.mpr ⟨hfirst, hnone⟩) ?_
      rintro ⟨before, t', kind, after, rfl, hbefore⟩
      exact ⟨(t, n) :: before, t', kind, after, rfl, undelivered_append.mpr ⟨hfirst, hbefore⟩⟩

/-! ## From the retry to the next delivery

Once a worker has seen to the retry there is a kind noted for the key. From then on only a trigger
changes it, and only a manual one makes a difference (`Standing.Relays.step`). The next record takes
the kind from a delivery, or, if there is none, from what the supervisor finds when it closes the
account. -/

namespace Standing.Relays

variable {s u : Standing} {o : Option Notice}

/-- What is noted of a retry is outweighed by nothing but a manual trigger, up to the delivery that
takes it along. -/
theorem step (h : s.Relays key carried log) (hs : Step setup key clocks s o u)
    (hd : ∀ n ∈ o, n.isDeliveryOf key = false) :
    u.Relays key carried (log ++ o.toList.map (clocks.now, ·)) := by
  rw [Relays, triggersOf_append, triggersOf_map]
  rcases h with ⟨kind, hk, hiff⟩ | ⟨hc, hk, hp⟩
  · have hquiet (hu : u.kind = s.kind) (ho : o.bind (·.acceptedFor? key) = none) :
        ∃ kind, u.kind = some kind ∧
          (kind = .manual ↔ carried ∨ .manual ∈ triggersOf key log ++ (o.bind (·.acceptedFor? key)).toList) := by
      rw [ho]
      exact ⟨kind, hu.trans hk, by simpa using hiff⟩
    cases hs with
    | @accept kind' =>
      refine .inl ⟨_, rfl, ?_⟩
      have hmerge : outweigh kind' (some kind) = .manual ↔ kind = .manual ∨ kind' = .manual := by
        cases kind' <;> cases kind <;> simp [outweigh]
      rw [hk, hmerge, hiff]
      simp [Notice.acceptedFor?, or_assoc, eq_comm]
    | deliver => simp [Notice.isDeliveryOf] at hd
    | keep hp =>
      refine .inl (hquiet ?_ rfl)
      rw [hk]
      rfl
    | abandon hc hp => exact .inr ⟨hc, rfl, hp⟩
    | forget hc hp => exact .inr ⟨hc, rfl, hp⟩
    | _ => exact .inl (hquiet rfl rfl)
  · cases hs with
    | accept ho | fire ho | shut ho =>
      rw [hc] at ho
      cases ho
    | deliver => simp [Notice.isDeliveryOf] at hd
    | refuse | abandon | forget => exact .inr ⟨hc, by simp [hk], hp⟩
    | begin hp' | succeed hp' | fail hp' | drop hp' | keep hp' | retryAtOnce hp' | retryCovered hp' | retryLater hp'
    | retryCancelled hp' | record hp' | release hp' => exact absurd hp' (hp _ _)

/-- Every path without a delivery relays the kind. -/
theorem of_path {since : Log} (h : s.Relays key carried log) (hpath : Path setup key s since u)
    (hd : Undelivered key since) : u.Relays key carried (log ++ since) := by
  induction hpath with
  | refl =>
    rw [List.append_nil]
    exact h
  | step _ hs ih =>
    obtain ⟨hsince, ho⟩ := undelivered_append.mp hd
    rw [← List.append_assoc]
    exact (ih hsince).step hs ((undelivered_toList _).mp ho)

end Standing.Relays

variable {p q r : Pool} {capacity : Nat} {steps : List (Clocks × Action)} {i : Nat} {a : Attempt} {d : Span}
  {e error : String} {f : Nat} {failed next : Record} {before flight between after : Log} {t' : Moment}

/-- What has been noted when a manual attempt has failed, and no retry has been seen to. -/
theorem told_of_counting
    (h : run setup (fresh capacity) steps = some (p, before ++ (t, .delivered a.key .manual) :: flight))
    (hflight : Undelivered a.key flight) (hw : p.workers[i]? = some (.counting a d e f)) :
    a.trigger = .manual ∧ recordsOf a.key flight = [] ∧
      ((p.standing a.key).kind.getD .manual = .manual ↔
        triggersOf a.key flight = [] ∨ .manual ∈ triggersOf a.key flight) := by
  have hplace : (p.standing a.key).place = _ := (sound_of_run h).place_of_holder hw rfl
  have hthere : ¬p.Deserted := fun hgone => hgone.not_worker (by simp) hw
  have htold := (toldBy_of_run h a.key).resolve_right hthere
  rw [Standing.ToldBy, sinceDelivery_about, triggersOf_about, recordsOf_about, sinceDelivery_of_split hflight] at htold
  have hnone := htold.unrecorded (by rw [hplace]; rfl)
  have hearly := htold.early (by rw [hplace]; rfl)
  refine ⟨?_, hnone, ?_⟩
  · have hcarries := carries_of_delivered h
    rw [Standing.Carries, recordsOf_about, hnone] at hcarries
    obtain ⟨stage, again, hp, hk⟩ := hcarries
    cases hp.symm.trans hplace
    exact Option.some.inj hk
  · cases hk : (p.standing a.key).kind with
    | none => exact iff_of_true rfl (.inl (hearly.mp hk))
    | some kind =>
      constructor
      · rintro rfl
        refine .inr ((htold.reason hk).resolve_right fun hblames => ?_)
        rw [hplace] at hblames
        exact hblames
      · rintro (hnil | hm)
        · rw [hearly.mpr hnil] at hk
          cases hk
        · exact Option.some.inj (hk.symm.trans (htold.manual hm))

/-- A worker that sees to a retry notes what set the attempt off, unless something is noted
already. -/
theorem kind_of_kept (hw : p.workers[i]? = some (.counting a d e f)) (hf : f ≤ setup.retryLimit)
    {notices : List Notice} (hact : p.act setup clocks (.work i) = some (q, notices)) :
    notices = [] ∧ (q.standing a.key).kind = some ((p.standing a.key).kind.getD a.trigger) := by
  cases step_of_act hact with
  | kept hw' =>
    cases hw.symm.trans hw'
    have hkind := congrArg Standing.kind (standing_keep_kind p a.key a.key a.trigger)
    rw [if_pos rfl] at hkind
    exact ⟨rfl, hkind⟩
  | dropped hw' hlt =>
    cases hw.symm.trans hw'
    exact absurd hf (Nat.not_le.mpr hlt)
  | took hw' | left hw' | waited hw' | released hw' | began hw' | retriedAtOnce hw' | retryCovered hw'
  | retryDelayed hw' | retryRefused hw' | recorded hw' => cases hw.symm.trans hw'

/-- A record is made in a step of its own, by a worker or, when all workers have left, by the
supervisor. -/
theorem of_recorded {b : Action} {notices : List Notice} (hact : p.act setup clocks b = some (q, notices))
    (hn : .recorded next ∈ notices) :
    notices = [.recorded next] ∧
      ((∃ (i : Nat) (a : Attempt) (d : Span) (o : Outcome), p.workers[i]? = some (.settled a d o) ∧ a.key = next.key) ∨
        (∀ s ∈ p.workers, s = .exited) ∧ next.trigger = p.kindOf next.key) := by
  cases step_of_act hact with
  | @recorded i a d o hw =>
    obtain rfl : next = a.record (Uuid.ofAttempt p.recordCount) d o := by simpa using hn
    exact ⟨rfl, .inl ⟨i, a, d, o, hw, rfl⟩⟩
  | closedOut hs he ha =>
    obtain rfl := Notice.recorded.inj (List.mem_singleton.mp hn)
    exact ⟨rfl, .inr ⟨he, rfl⟩⟩
  | fired => split at hn <;> simp at hn
  | _ => simp at hn

/-- As long as a key that has failed is free, it is noted what sets its next delivery off. -/
theorem kindOf_of_relays {rest : List (Clocks × Action)} (h : run setup (fresh capacity) steps = some (q, log))
    (hr : (q.standing key).Relays key carried []) (hrun : run setup q rest = some (p, between))
    (hbetween : Undelivered key between) (hrecords : recordsOf key between = [failed])
    (hfail : failed.outcome = .failure error) (hp : ∀ stage again, p.place key ≠ .held stage again) :
    p.kindOf key = .manual ↔ carried ∨ .manual ∈ triggersOf key between := by
  have hwhole := run_append_eq_some.mpr ⟨q, _, _, h, hrun, rfl⟩
  have hfailures : (p.standing key).failures ≠ 0 := by
    rw [(tally_of_run hwhole key).free hp, expectedCount, recordsOf_append, hrecords, List.getLast?_concat]
    simp [Record.nextRetryCount, Outcome.nextRetryCount, hfail]
  have haccount : (p.standing key).account ≠ none := fun hnone => by
    rw [Standing.failures, hnone] at hfailures
    exact hfailures rfl
  have htold : (p.standing key).place.isTold = true := by
    cases hs : (p.standing key).place with
    | resting | waiting => rfl
    | held stage again => exact absurd hs (hp stage again)
  have hkind := (minded_of_run hwhole key).told haccount htold
  have hpath := path_of_run (sound_of_run h) hrun key
  rcases hr.of_path hpath (hbetween.about key) with ⟨kind, hk, hiff⟩ | ⟨-, hk, -⟩
  · have hkindOf : p.kindOf key = kind := congrArg (·.getD .auto) hk
    rw [hkindOf, hiff, List.nil_append, triggersOf_about]
  · exact absurd hk hkind

/-- The next record is of the retry: it is what was noted when the key was delivered. -/
theorem trigger_of_retry {rest : List (Clocks × Action)} {retry : Log} {t₁ : Moment}
    (h : run setup (fresh capacity) steps = some (q, before ++ (t, .delivered key .manual) :: flight))
    (hnone : recordsOf key flight = []) (hr : (q.standing key).Relays key carried [])
    (hrun : run setup q rest =
      some (r, between ++ (t₁, .delivered key kind) :: (retry ++ (t', .recorded next) :: after)))
    (hbetween : Undelivered key between)
    (hrecords : recordsOf key (between ++ (t₁, .delivered key kind) :: retry) = [failed])
    (hfail : failed.outcome = .failure error) (hnext : next.key = key) :
    next.trigger = .manual ↔ carried ∨ .manual ∈ triggersOf key between := by
  have hwhole := run_append_eq_some.mpr ⟨q, _, _, h, hrun, rfl⟩
  obtain ⟨first, clocks, b, second, p, p', earlier, later, early, late, hfirst, hact, -, -, rfl, -, -⟩ :=
    exists_act_of_run hrun
  have hn : .delivered key kind ∈ early ++ .delivered key kind :: late := by simp
  have hsofar := run_append_eq_some.mpr ⟨q, _, _, h, hfirst, rfl⟩
  obtain ⟨hnotices, hkind, hplace, -⟩ := of_delivered (sound_of_run hsofar) hact hn
  obtain ⟨rfl, -⟩ : early = [] ∧ late = [] := by
    simpa using List.append_eq_singleton_iff.mp hnotices
  rw [List.map_nil, List.append_nil] at hbetween hrecords hwhole ⊢
  -- the failure has been recorded before the key was delivered again
  have hfree : ∀ stage again, p.place key ≠ .held stage again := by
    rw [show p.place key = .waiting from hplace]
    simp
  rw [List.append_assoc, List.cons_append] at hsofar
  have hrecorded := (carries_of_delivered hsofar).recorded hfree
  rw [recordsOf_about, recordsOf_append, hnone, List.nil_append] at hrecorded
  rw [recordsOf_append] at hrecords
  obtain ⟨hearlier, hretry⟩ : recordsOf key earlier = [failed] ∧ recordsOf key retry = [] := by
    rcases List.append_eq_singleton_iff.mp hrecords with ⟨hnil, -⟩ | hsplit
    · exact absurd hnil hrecorded
    · exact hsplit
  have htrigger : next.trigger = kind := by
    rw [← List.append_assoc] at hwhole
    refine (carries_of_delivered hwhole).head ?_
    rw [recordsOf_about, recordsOf_append, hretry, List.nil_append]
    have hcons : recordsOf key ((t', .recorded next) :: after) = next :: recordsOf key after :=
      List.filter_cons_of_pos (decide_eq_true hnext)
    rw [hcons]
    rfl
  rw [htrigger, hkind]
  exact kindOf_of_relays h hr hfirst hbetween hearlier hfail hfree

/-- The next record is made by the supervisor: it is what was noted when the pool stopped. -/
theorem trigger_of_closedOut {rest : List (Clocks × Action)}
    (h : run setup (fresh capacity) steps = some (q, before ++ (t, .delivered key .manual) :: flight))
    (hflight : Undelivered key flight) (hr : (q.standing key).Relays key carried [])
    (hrun : run setup q rest = some (r, between ++ (t', .recorded next) :: after)) (hbetween : Undelivered key between)
    (hrecords : recordsOf key between = [failed]) (hfail : failed.outcome = .failure error) (hnext : next.key = key) :
    next.trigger = .manual ↔ carried ∨ .manual ∈ triggersOf key between := by
  subst hnext
  obtain ⟨first, clocks, b, second, p, p', earlier, later, early, late, hfirst, hact, -, -, rfl, -, -⟩ :=
    exists_act_of_run hrun
  have hn : .recorded next ∈ early ++ .recorded next :: late := by simp
  obtain ⟨hnotices, hby⟩ := of_recorded hact hn
  obtain ⟨rfl, -⟩ : early = [] ∧ late = [] := by
    simpa using List.append_eq_singleton_iff.mp hnotices
  rw [List.map_nil, List.append_nil] at hbetween hrecords ⊢
  rcases hby with ⟨i, a, d, o, hw, hk⟩ | ⟨hexited, htrigger⟩
  · -- a worker has recorded the failure already, and the key was not delivered since
    have hsofar := run_append_eq_some.mpr ⟨q, _, _, h, hfirst, rfl⟩
    rw [List.append_assoc, List.cons_append] at hsofar
    have hplace : (p.standing next.key).place = _ := (sound_of_run hsofar).place_of_holder hw (congrArg some hk)
    have hrecorded : recordsOf next.key (about next.key (flight ++ earlier)) ≠ [] := by
      rw [recordsOf_about, recordsOf_append, hrecords]
      simp
    have hfree := (carries_of_delivered hsofar).not_underWay hrecorded
      ((undelivered_append.mpr ⟨hflight, hbetween⟩).about next.key)
    rw [hplace] at hfree
    cases hfree
  · rw [htrigger]
    exact kindOf_of_relays h hr hfirst hbetween hrecords hfail (place_ne_held hexited next.key)

/-- **When a retry stays manual**: let a manual attempt fail and a worker see to its retry, and the
attempt be recorded as a failure. The next record of the key, be it of the retry or made when the
pool stops, is manual exactly if the key was not triggered since the attempt was delivered until the
worker saw to the retry, or was triggered manually since the attempt was delivered until the next
delivery. -/
theorem retry_is_manual_iff {rest : List (Clocks × Action)}
    (h : run setup (fresh capacity) steps = some (p, before ++ (t, .delivered a.key .manual) :: flight))
    (hflight : Undelivered a.key flight) (hw : p.workers[i]? = some (.counting a d e f)) (hf : f ≤ setup.retryLimit)
    (hrest : run setup p ((clocks, .work i) :: rest) = some (r, between ++ (t', .recorded next) :: after))
    (hrecords : recordsOf a.key between = [failed]) (hfail : failed.outcome = .failure error)
    (hnext : next.key = a.key) :
    next.trigger = .manual ↔
      triggersOf a.key flight = [] ∨ .manual ∈ triggersOf a.key (flight ++ untilDelivery a.key between) := by
  obtain ⟨htrigger, hnone, hcarried⟩ := told_of_counting h hflight hw
  obtain ⟨q, notices, later, hact, hrun, hlater⟩ := run_cons_eq_some.mp hrest
  obtain ⟨rfl, hkind⟩ := kind_of_kept hw hf hact
  obtain rfl : _ = later := hlater
  -- the run up to the moment when the retry has been seen to
  have hq := run_concat_eq_some.mpr ⟨p, _, [], h, hact, rfl⟩
  rw [List.map_nil, List.append_nil] at hq
  have hrelays : (q.standing a.key).Relays a.key
      (triggersOf a.key flight = [] ∨ .manual ∈ triggersOf a.key flight) [] := by
    refine .inl ⟨_, hkind, ?_⟩
    rw [htrigger, hcarried]
    simp [triggersOf]
  rw [triggersOf_append, List.mem_append, ← or_assoc]
  -- the key is delivered again, or it is closed out
  rcases first_delivery a.key between with hend | ⟨waiting, t₁, kind, retry, rfl, hwaiting⟩
  · rw [untilDelivery_of_undelivered hend]
    exact trigger_of_closedOut hq hflight hrelays hrun hend hrecords hfail hnext
  · rw [List.append_assoc] at hrun
    rw [untilDelivery_of_split hwaiting]
    exact trigger_of_retry hq hnone hrelays hrun hwaiting hrecords hfail hnext

/-- A key is triggered manually, and by the resync while the attempt is made, which fails. -/
def tickDuringAttempt : List Action :=
  [.trigger "a" .manual, .run, .work 0, .work 0, .trigger "a" .auto, .finish 0 (.failure ⟨"down"⟩)]

/-- The worker sees to the retry, which then succeeds. -/
def retrySucceeds : List Action :=
  [.work 0, .work 0, .work 0, .work 0, .work 0, .work 0, .finish 0 .success, .work 0]

/-- The trigger of the resync has come too early, so the retry is not manual. -/
theorem retry_is_manual_iff_after_tick :
    ∃ p flight r between failed next,
      run ⟨1, 5, .fixed Span.zero, none⟩ (fresh 10) (allAt ⟨0, .epoch⟩ tickDuringAttempt) =
        some (p, [(0, .accepted "a" .manual)] ++ (0, .delivered "a" .manual) :: flight) ∧
      run ⟨1, 5, .fixed Span.zero, none⟩ p (allAt ⟨0, .epoch⟩ retrySucceeds) =
        some (r, between ++ [(0, .recorded next)]) ∧
      triggersOf "a" flight = [.auto] ∧ recordsOf "a" between = [failed] ∧ failed.trigger = .manual ∧
      next.key = "a" ∧ next.trigger ≠ .manual := by
  generalize hr : run _ _ (allAt ⟨0, .epoch⟩ tickDuringAttempt) = c
  have hend : c.map (fun c => (c.1.workers[0]?, c.2)) = some (
      some (.counting ⟨"a", .manual, 0, .epoch, 0⟩ Span.zero "down" 1),
      [(0, .accepted "a" .manual)] ++ [(0, .delivered "a" .manual), (0, .began "a"), (0, .accepted "a" .auto)]) := by
    rw [← hr]
    decide +kernel
  have hnext : (c.bind fun c => run ⟨1, 5, .fixed Span.zero, none⟩ c.1 (allAt ⟨0, .epoch⟩ retrySucceeds)).map
      (·.2) = some ([(0, .recorded ⟨.ofAttempt 0, "a", .manual, .epoch, Span.zero, .failure "down", 0⟩),
        (0, .delivered "a" .auto), (0, .began "a")] ++
          [(0, .recorded ⟨.ofAttempt 1, "a", .auto, .epoch, Span.zero, .success, 1⟩)]) := by
    rw [← hr]
    decide +kernel
  obtain ⟨⟨p, log⟩, rfl, hp⟩ := Option.map_eq_some_iff.mp hend
  obtain ⟨⟨r, later⟩, hrest, rfl⟩ := Option.map_eq_some_iff.mp hnext
  obtain ⟨hw, rfl⟩ := Prod.mk.inj hp
  let a : Attempt := ⟨"a", .manual, 0, .epoch, 0⟩
  have hiff := retry_is_manual_iff (a := a) hr (by decide) hw (by decide) hrest rfl rfl rfl
  exact ⟨p, _, r, _, _, _, rfl, hrest, rfl, rfl, rfl, rfl, mt hiff.mp (by decide +kernel)⟩

/-- A manual attempt fails, and the next record of its key is not manual: a trigger of the resync
has come while the attempt was made. -/
theorem manual_kind_lost :
    ¬∀ setup capacity steps p before t₁ failed between t₂ next after error,
        InOrder steps →
        run setup (fresh capacity) steps =
          some (p, before ++ (t₁, .recorded failed) :: between ++ (t₂, .recorded next) :: after) →
        failed.trigger = .manual → failed.outcome = .failure error → next.key = failed.key →
        recordsOf failed.key between = [] → next.trigger = .manual := by
  intro hcarried
  let steps := allAt ⟨0, .epoch⟩ (tickDuringAttempt ++ retrySucceeds)
  let failed : Record := ⟨.ofAttempt 0, "a", .manual, .epoch, Span.zero, .failure "down", 0⟩
  let next : Record := ⟨.ofAttempt 1, "a", .auto, .epoch, Span.zero, .success, 1⟩
  have hend : (run ⟨1, 5, .fixed Span.zero, none⟩ (fresh 10) steps).map (·.2) =
      some ([(0, .accepted "a" .manual), (0, .delivered "a" .manual), (0, .began "a"), (0, .accepted "a" .auto)] ++
        (0, .recorded failed) :: [(0, .delivered "a" .auto), (0, .began "a")] ++ (0, .recorded next) :: []) := by
    decide +kernel
  obtain ⟨⟨p, log⟩, hrun, rfl⟩ := Option.map_eq_some_iff.mp hend
  have hmanual := hcarried _ _ steps p _ 0 failed _ 0 next [] "down" (inOrder_allAt _ _) hrun rfl rfl rfl rfl
  cases hmanual

end ControlLoop.Pool
