import ControlLoop.Proofs.Pool.Drive
import ControlLoop.Proofs.Pool.Projection

/-!
# When a settled key stays quiet

An attempt that succeeds, or that drops its key, should be the last one until somebody triggers the
key again. It is so only if no timer is left over: a retry that was put off stays put off when a
trigger delivers the key early, and its timer puts the key in whatever the attempts have come to
meanwhile. `stays_quiet_iff` tells the two cases apart. After a settled attempt the key stays quiet
exactly if no timer of it runs and none went off during the attempt.

For the one direction a run is built in which the timer, or the mark, brings about an attempt
(`Sound.drive_delayed`, `Sound.drive_marked`); for the other no path of the key has an attempt in it
(`Standing.Still.of_path`). So the condition is exact, and not only sufficient.
-/

namespace ControlLoop.Pool

/-- No attempt of the key begins from now on, unless it is triggered. The statement is about all
runs that may follow, as time goes on from `now`. -/
def StaysQuiet (setup : Setup) (now : Moment) (p : Pool) (key : Key) : Prop :=
  ∀ steps q log, InOrder steps → (∀ s ∈ steps, now ≤ s.1.now) → run setup p steps = some (q, log) →
    (∀ t kind, (t, .accepted key kind) ∉ log) → ∀ t, (t, .began key) ∉ log

variable {setup : Setup} {clocks : Clocks} {p q : Pool} {i : Nat} {key : Key} {log : Log}

/-! ## A timer during the attempt

A key that is held is marked by a trigger or by a timer. If it is not triggered, the log since the
delivery tells by the timers that went off whether it is marked, up to the stage at which its own
retry may mark it. -/

/-- The attempt has not come to a retry, nor to its end. -/
def Stage.isUnsettled : Stage → Bool
  | settled _ _ (.failure _) | releasing _ => false
  | _ => true

/-- Until its attempt comes to a retry the key is marked exactly if a timer put it in, in the log
since its delivery. This is asked of a key that is not triggered meanwhile, as a trigger would mark
it too. -/
def Place.MarkedBy (key : Key) (log : Log) (p : Place) : Prop :=
  ∀ stage again, p = .held stage again → stage.isUnsettled = true →
    (again = true ↔ ∃ t, (t, .released key) ∈ log)

namespace Place.MarkedBy

variable {old new : Stage} {again : Bool} {later : Log}

/-- A mark is told by the timers that have gone off; what else is taken down does not matter. -/
theorem append {p : Place} (h : p.MarkedBy key log) (hl : ∀ t, (t, .released key) ∉ later) :
    p.MarkedBy key (log ++ later) := by
  intro stage again hp hu
  rw [h stage again hp hu]
  simp [hl]

theorem move (h : (Place.held old again).MarkedBy key log) (hu : new.isUnsettled = true → old.isUnsettled = true)
    (hl : ∀ t, (t, .released key) ∉ later) : (Place.held new again).MarkedBy key (log ++ later) := by
  rintro stage again' ⟨⟩ hnew
  exact h.append hl old again rfl (hu hnew)

/-- While the key is neither triggered nor delivered, only a timer marks it. -/
theorem step {s t : Standing} {o : Option Notice} (h : s.place.MarkedBy key log)
    (hs : Standing.Step setup key clocks s o t)
    (hn : ∀ kind, o ≠ some (.accepted key kind) ∧ o ≠ some (.delivered key kind)) :
    t.place.MarkedBy key (log ++ o.toList.map (clocks.now, ·)) := by
  cases hs with
  | accept => exact absurd rfl (hn _).1
  | deliver => exact absurd rfl (hn _).2
  | refuse | shut | abandon | forget => exact h.append (by simp)
  | begin hp | succeed hp | fail hp | drop hp | keep hp | retryCancelled hp =>
    rw [hp] at h
    exact h.move (fun _ => rfl) (by simp)
  | retryAtOnce => rintro _ _ ⟨⟩ ⟨⟩
  | retryCovered => rintro _ _ ⟨⟩ ⟨⟩
  | retryLater => rintro _ _ ⟨⟩ ⟨⟩
  | record => rintro _ _ ⟨⟩ ⟨⟩
  | @release again =>
    intro stage again' hp
    cases again <;> cases hp
  | fire =>
    intro stage again hp _
    cases hs : s.place with
    | resting | waiting =>
      simp only [hs] at hp
      cases hp
    | held stage' again' =>
      simp only [hs] at hp
      cases hp
      simp

/-- Along every path without triggers and deliveries a key is marked exactly if a timer has put it
in. -/
theorem of_path {s t : Standing} (hs : s.place.MarkedBy key log) (h : Standing.Path setup key s later t)
    (hn : ∀ m kind, (m, .accepted key kind) ∉ later ∧ (m, .delivered key kind) ∉ later) :
    t.place.MarkedBy key (log ++ later) := by
  induction h with
  | refl =>
    rw [List.append_nil]
    exact hs
  | @step later s t clocks o _ hstep ih =>
    rw [← List.append_assoc]
    refine (ih fun m kind => ?_).step hstep fun kind => ?_
    · obtain ⟨hacc, hdel⟩ := hn m kind
      exact ⟨fun hmem => hacc (List.mem_append_left _ hmem), fun hmem => hdel (List.mem_append_left _ hmem)⟩
    · obtain ⟨hacc, hdel⟩ := hn clocks.now kind
      constructor
      · rintro rfl
        simp at hacc
      · rintro rfl
        simp at hdel

end Place.MarkedBy

/-- While an attempt has not come to a retry, its key is marked exactly if a timer put it in since
the delivery. -/
theorem mem_dirty_iff_released {capacity : Nat} {steps : List (Clocks × Action)} {before since : Log} {t : Moment}
    {kind : Trigger} {stage : Stage}
    (h : run setup (fresh capacity) steps = some (p, before ++ (t, .delivered key kind) :: since))
    (hsince : ∀ t kind, (t, .accepted key kind) ∉ since ∧ (t, .delivered key kind) ∉ since)
    (hw : p.workers[i]? = some stage) (hk : stage.key? = some key) (hu : stage.isUnsettled = true) :
    key ∈ p.queue.dirty ↔ ∃ t, (t, .released key) ∈ since := by
  obtain ⟨s, clocks, s', -, hdeliver, -, hlater⟩ := exists_step_of_run h (decide_eq_true (Eq.refl key))
  have hstart : s'.place.MarkedBy key [] := by
    cases hdeliver with
    | deliver =>
      rintro _ _ ⟨⟩ -
      simp
  have hend := hstart.of_path hlater fun m kind =>
    ⟨fun hmem => (hsince m kind).1 (List.mem_filter.mp hmem).1,
      fun hmem => (hsince m kind).2 (List.mem_filter.mp hmem).1⟩
  have hiff := hend _ _ ((sound_of_run h).place_of_holder hw hk) hu
  rw [decide_eq_true_iff] at hiff
  rw [hiff]
  simp [about, Notice.concerns]

/-! ## Nothing left over

The invariant is `Standing.Still`: the key rests, or is about to, it is not marked, and no timer of
it runs. Only a trigger ends this, so no run without one has an attempt of the key in it. -/

/-- The key rests, or will when its holder is done with it, and no timer puts it in. -/
def Standing.Still (key : Key) (s : Standing) : Prop :=
  s.delayed = none ∧ (s.place = .resting ∨ s.place = .held (.releasing key) false)

/-- A key that is still stays so, and no attempt of it begins, unless it is triggered. -/
theorem Standing.Still.step {s t : Standing} {o : Option Notice} (h : s.Still key)
    (hs : Standing.Step setup key clocks s o t) (hn : ∀ kind, o ≠ some (.accepted key kind)) :
    t.Still key ∧ o ≠ some (.began key) := by
  obtain ⟨hd, hplace⟩ := h
  cases hs with
  | accept => exact absurd rfl (hn _)
  | fire _ hm =>
    rw [hd] at hm
    cases hm
  | deliver hp | begin hp | succeed hp | fail hp | drop hp | keep hp | retryAtOnce hp | retryCovered hp
  | retryLater hp | retryCancelled hp | record hp =>
    rw [hp] at hplace
    rcases hplace with hplace | hplace <;> cases hplace
  | release hp =>
    rw [hp] at hplace
    rcases hplace with hplace | hplace <;> cases hplace
    exact ⟨⟨hd, .inl rfl⟩, by simp⟩
  | refuse => exact ⟨⟨hd, hplace⟩, by simp⟩
  | shut | abandon | forget => exact ⟨⟨by simp [hd], hplace⟩, by simp⟩

/-- Along every path without triggers a key that is still stays so, and no attempt of it begins. -/
theorem Standing.Still.of_path {s t : Standing} (hs : s.Still key) (h : Standing.Path setup key s log t)
    (hn : ∀ m kind, (m, .accepted key kind) ∉ log) : t.Still key ∧ ∀ m, (m, .began key) ∉ log := by
  induction h with
  | refl => exact ⟨hs, by simp⟩
  | @step log s t clocks o _ hstep ih =>
    obtain ⟨hstill, hnone⟩ := ih fun m kind hmem => hn m kind (List.mem_append_left _ hmem)
    obtain ⟨hstill, ho⟩ := hstill.step hstep (by
      rintro kind rfl
      exact hn clocks.now kind (by simp))
    refine ⟨hstill, fun m hmem => ?_⟩
    rcases List.mem_append.mp hmem with hmem | hmem
    · exact hnone m hmem
    · obtain ⟨n, hn', heq⟩ := List.mem_map.mp hmem
      cases heq
      exact ho (Option.mem_toList.mp hn')

/-- A key that is still stays quiet, whatever happens to the pool, its other keys and its other
workers. -/
theorem staysQuiet_of_still (h : q.Sound setup) (hs : (q.standing key).Still key) (now : Moment) :
    StaysQuiet setup now q key := by
  intro steps r log _ _ hrun hn t hmem
  have hnone := (hs.of_path (path_of_run h hrun key) fun m kind hacc => hn m kind (List.mem_filter.mp hacc).1).2
  exact hnone t (List.mem_filter.mpr ⟨hmem, by simp [Notice.concerns]⟩)

/-! ## Something left over

To refute that a key stays quiet one run is enough, and it may be chosen. A timer that is left over
goes off when it is due, and marks the key, which its worker still holds. A key that is marked is
given back and waits, and the worker takes what waits until it comes to the key (`Drives`). -/

/-- A key does not stay quiet if some steps lead to an attempt of it and nobody triggers a key
meanwhile. -/
theorem not_staysQuiet_of_drives {now : Moment} (hnow : now ≤ clocks.now) (h : Drives setup clocks p q log)
    (hbegan : (clocks.now, .began key) ∈ log) : ¬StaysQuiet setup now p key := by
  intro hquiet
  obtain ⟨⟨actions, hrun⟩, hnone⟩ := h
  refine hquiet (allAt clocks actions) q log (inOrder_allAt clocks actions) ?_ hrun (fun t kind => hnone t key kind)
    clocks.now hbegan
  intro s hs
  obtain ⟨a, -, rfl⟩ := List.mem_map.mp hs
  exact hnow

/-- A marked key is handled again once its holder has come to the end of the queue. -/
theorem Sound.drive_marked (h : p.Sound setup) (clocks : Clocks) (hw : p.workers[i]? = some (.releasing key))
    (hd : key ∈ p.queue.dirty) :
    ∃ q log, Drives setup clocks p q log ∧ (clocks.now, .began key) ∈ log := by
  have hrelease := drive_release setup clocks hw
  have hw' : (p.givenBack i key).workers[i]? = some .asking := getElem?_moveTo hw _
  have hp : (p.queue.done key).pending = p.queue.pending ++ key :: [] := by
    rw [Queue.done_of_mem_dirty hd]
    rfl
  have hb : i ∉ (p.queue.done key).bell.waiting := fun hmem =>
    h.waiting_ne hw (by simp) (Queue.mem_waiting_of_done hmem) rfl
  obtain ⟨q, log, hdrive, hbegan⟩ := drive_to_pending setup clocks hw' hb hp
  exact ⟨q, log, hrelease.trans hdrive, hbegan⟩

/-- A timer that is left over puts the key in when its moment has come. -/
theorem Sound.drive_delayed (h : p.Sound setup) (clocks : Clocks) {d : Moment}
    (hw : p.workers[i]? = some (.releasing key)) (hd : p.queue.delayed[key]? = some d) (hnow : d ≤ clocks.now) :
    ∃ q log, Drives setup clocks p q log ∧ (clocks.now, .began key) ∈ log := by
  obtain ⟨ho, hfire⟩ := h.queue.fire_of_delayed hd
  have hact : p.act setup clocks (.fire key d) =
      some ({ p with queue := p.queue.fire key d }, [.released key]) := by
    simp [act, h.queue.mem_timers key d hd, hnow, hd, ho]
  have hmarked : key ∈ (p.queue.fire key d).dirty := by
    rw [hfire]
    exact Queue.mem_dirty_insert.mpr (.inr ⟨rfl, h.mem_processing_of_holder hw rfl⟩)
  obtain ⟨q, log, hdrive, hbegan⟩ := (h.fire key d).drive_marked clocks hw hmarked
  exact ⟨q, _, (Drives.single hact (by simp)).trans hdrive, List.mem_append_right _ hbegan⟩

/-! ## The two cases

When an attempt has been recorded that is not to be repeated, its worker is at `releasing`. If the
key is neither marked nor delayed it is still, and otherwise it is driven to an attempt. The mark is
then put in terms of the log by `mem_dirty_iff_released`. -/

/-- **When a settled key stays quiet**: let an attempt be delivered, and the key not be triggered
since; when the attempt is recorded as a success or as the drop of the key, then no further attempt
of the key begins without a trigger exactly if no retry of the key is put off still, and no timer
put the key in since the delivery. -/
theorem stays_quiet_iff {capacity : Nat} {steps : List (Clocks × Action)} {before since : Log} {t : Moment}
    {kind : Trigger} {r : Record}
    (h : run setup (fresh capacity) steps = some (p, before ++ (t, .delivered key kind) :: since))
    (hsince : ∀ t kind, (t, .accepted key kind) ∉ since ∧ (t, .delivered key kind) ∉ since)
    (hact : p.act setup clocks (.work i) = some (q, [.recorded r])) (hk : r.key = key)
    (ho : ∀ e, r.outcome ≠ .failure e) :
    StaysQuiet setup clocks.now q key ↔ q.queue.delayed[key]? = none ∧ ∀ t, (t, .released key) ∉ since := by
  have hp := sound_of_run h
  have hq := sound_of_act hp hact
  obtain ⟨a, d, o, hw, rfl, rfl⟩ : ∃ a d o, p.workers[i]? = some (.settled a d o) ∧
      r = a.record (Uuid.ofAttempt p.recordCount) d o ∧
      q = (p.record fun id => a.record id d o).moveTo i (.releasing a.key) := by
    cases step_of_act hact with
    | recorded hw => exact ⟨_, _, _, hw, rfl, rfl⟩
  obtain rfl : a.key = key := hk
  have hw' : ((p.record fun id => a.record id d o).moveTo i (.releasing a.key)).workers[i]? =
      some (.releasing a.key) := getElem?_moveTo hw _
  -- the mark tells whether a timer went off during the attempt
  have hmarked : a.key ∈ p.queue.dirty ↔ ∃ t, (t, .released a.key) ∈ since := by
    refine mem_dirty_iff_released h hsince hw rfl ?_
    cases o with
    | failure e => exact absurd rfl (ho e)
    | success | failureFinal => rfl
  constructor
  · intro hquiet
    constructor
    · cases hd : ((p.record fun id => a.record id d o).moveTo i (.releasing a.key)).queue.delayed[a.key]? with
      | none => rfl
      -- the timer that runs goes off when it is due, and the key is handled
      | some m =>
        obtain ⟨r, log, hdrive, hbegan⟩ :=
          hq.drive_delayed ⟨max clocks.now m, clocks.wall⟩ hw' hd (Nat.le_max_right _ _)
        exact absurd hquiet (not_staysQuiet_of_drives (Nat.le_max_left _ _) hdrive hbegan)
    · intro t hmem
      obtain ⟨r, log, hdrive, hbegan⟩ := hq.drive_marked clocks hw' (hmarked.mpr ⟨t, hmem⟩)
      exact not_staysQuiet_of_drives (Nat.le_refl _) hdrive hbegan hquiet
  · rintro ⟨hd, hnone⟩
    refine staysQuiet_of_still hq ⟨hd, .inr ?_⟩ clocks.now
    have hclean : a.key ∉ p.queue.dirty := fun hmem => (hmarked.mp hmem).elim hnone
    exact (hq.place_of_holder hw' rfl).trans (congrArg _ (decide_eq_false hclean))

/-- A key fails, is triggered before its retry is due, fails at the limit and is dropped; the drop
is still to be recorded. -/
def dropBeforeRetry : List Action :=
  [.run, .trigger "a" .manual, .work 0, .work 0, .finish 0 (.failure ⟨"down"⟩), .work 0, .work 0, .work 0, .work 0,
    .trigger "a" .manual, .work 0, .work 0, .finish 0 (.failure ⟨"down"⟩), .work 0]

/-- The retry of the first failure is left over, so the dropped key does not stay quiet. -/
theorem stays_quiet_iff_after_drop :
    ∃ p q before r,
      run ⟨1, 1, .fixed (Span.ofMillis 100), none⟩ (fresh 10) (allAt ⟨0, .epoch⟩ dropBeforeRetry) =
        some (p, before ++ (0, .delivered "a" .manual) :: [(0, .began "a")]) ∧
      p.act ⟨1, 1, .fixed (Span.ofMillis 100), none⟩ ⟨0, .epoch⟩ (.work 0) = some (q, [.recorded r]) ∧
      r.outcome = .failureFinal "down" ∧ ¬StaysQuiet ⟨1, 1, .fixed (Span.ofMillis 100), none⟩ 0 q "a" := by
  generalize hr : run _ _ _ = c
  have hend : c.map (fun c => c.2.drop 6) = some [(0, .delivered "a" .manual), (0, .began "a")] := by
    rw [← hr]
    decide +kernel
  have hnext : (c.bind fun c => c.1.act ⟨1, 1, .fixed (Span.ofMillis 100), none⟩ ⟨0, .epoch⟩ (.work 0)).map
      (fun c => (c.1.queue.delayed["a"]?, c.2)) = some (some (10 ^ 8),
        [.recorded ⟨.ofAttempt 1, "a", .manual, .epoch, Span.zero, .failureFinal "down", 1⟩]) := by
    rw [← hr]
    decide +kernel
  obtain ⟨⟨p, log⟩, rfl, hdrop⟩ := Option.map_eq_some_iff.mp hend
  obtain ⟨⟨q, notices⟩, hact, hq⟩ := Option.map_eq_some_iff.mp hnext
  obtain ⟨hdelayed, rfl⟩ := Prod.mk.inj hq
  have hlog : log.take 6 ++ [(0, .delivered "a" .manual), (0, .began "a")] = log := by
    rw [← hdrop]
    exact List.take_append_drop 6 log
  refine ⟨p, q, log.take 6, _, by rw [hlog], hact, rfl, ?_⟩
  rw [← hlog] at hr
  rw [stays_quiet_iff hr (by simp) hact rfl (by simp)]
  rintro ⟨hnone, -⟩
  simp [hdelayed] at hnone

/-- A key is dropped, and attempted once more though nobody has triggered it since its last
delivery: the timer of its first retry goes off. -/
theorem dropped_key_attempted_again :
    ¬∀ setup capacity steps p before t₁ key kind since t₂ r later,
        InOrder steps →
        run setup (fresh capacity) steps =
          some (p, before ++ (t₁, .delivered key kind) :: since ++ (t₂, .recorded r) :: later) →
        r.key = key → (∀ e, r.outcome ≠ .failure e) → (∀ t kind, (t, .delivered key kind) ∉ since) →
        (∀ t kind, (t, .accepted key kind) ∉ since ++ later) →
        ∀ t, (t, .began key) ∉ later := by
  intro hquiet
  let steps := allAt ⟨0, .epoch⟩ (dropBeforeRetry ++ [.work 0, .work 0]) ++
    allAt ⟨10 ^ 8, .epoch⟩ [.fire "a" (10 ^ 8), .work 0, .work 0]
  let r : Record := ⟨.ofAttempt 1, "a", .manual, .epoch, Span.zero, .failureFinal "down", 1⟩
  have horder : InOrder steps := by
    unfold InOrder
    decide
  have hend : (run ⟨1, 1, .fixed (Span.ofMillis 100), none⟩ (fresh 10) steps).map (fun c => c.2.drop 6) =
      some [(0, .delivered "a" .manual), (0, .began "a"), (0, .recorded r), (10 ^ 8, .released "a"),
        (10 ^ 8, .delivered "a" .auto), (10 ^ 8, .began "a")] := by
    decide +kernel
  obtain ⟨⟨p, log⟩, hrun, hdrop⟩ := Option.map_eq_some_iff.mp hend
  rw [← List.take_append_drop 6 log, hdrop] at hrun
  refine hquiet _ _ steps p (log.take 6) 0 "a" .manual [(0, .began "a")] 0 r
    [(10 ^ 8, .released "a"), (10 ^ 8, .delivered "a" .auto), (10 ^ 8, .began "a")] horder (hrun.trans ?_) rfl
    (by simp [r]) (by simp) (by simp) (10 ^ 8) (by simp)
  simp

end ControlLoop.Pool
