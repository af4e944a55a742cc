import ControlLoop.Proofs.Pool.Projection

/-!
# No trigger is lost

What is said about a key is never forgotten: once a trigger has been accepted, the key waits, or a
worker holds it and it is marked, or an attempt has been delivered since. `Place.Due` says so at
every moment after the trigger, and each thing that can happen to a key keeps it. A pool does not
stop before its workers have left, and they do not leave before the queue is empty; so when it has
stopped, only the last of the three is left.

A trigger is refused only when the queue is shut, and a queue that is shut stays so.

`Place.Due` is an invariant of a key and of the log since the trigger, not of the whole log: a key
that waits owes an attempt that lies altogether ahead; one that is held and marked owes one too; and
of an attempt that is under way it says how much of it is in the log already (`Stage.Noted`).
-/

namespace ControlLoop.Pool

/-- In this part of a log an attempt of a key was delivered, began and was recorded, one after the
other. Notices about other keys, and other notices about this key, may stand between them. -/
def Served (key : Key) (log : Log) : Prop :=
  ∃ kind r t₁ t₂ t₃, [(t₁, .delivered key kind), (t₂, .began key), (t₃, .recorded r)] <:+: attempts key log ∧
    r.key = key ∧ r.trigger = kind

/-- How much of the attempt of a worker is in a log, if it was delivered in this part. -/
def Stage.Noted (key : Key) (log : Log) : Stage → Prop
  | holding _ kind => ∃ t, [(t, .delivered key kind)] <:+ attempts key log
  | handling a | counting a .. | retrying a .. | settled a .. =>
    ∃ t₁ t₂, [(t₁, .delivered key a.trigger), (t₂, .began key)] <:+ attempts key log
  | releasing _ => Served key log
  | asking | exited => False

/-- What is due to a key, in the log since a trigger of it: it has been served, or it waits, or its
holder was marked, or the attempt of its holder was delivered since, as far as it has come. -/
def Place.Due (key : Key) (log : Log) : Place → Prop
  | resting => Served key log
  | waiting | held _ true => True
  | held stage false => stage.Noted key log

variable {setup : Setup} {key : Key} {clocks : Clocks} {log : Log}

/-- An attempt that is in a log stays in it. -/
theorem Served.append (h : Served key log) (later : Log) : Served key (log ++ later) := by
  obtain ⟨kind, r, t₁, t₂, t₃, hin, hr⟩ := h
  refine ⟨kind, r, t₁, t₂, t₃, hin.trans ?_, hr⟩
  rw [attempts_append]
  exact (List.prefix_append _ _).isInfix

/-- What is noted of an attempt stays noted while the log grows, as long as no other attempt of the
key is taken down. -/
theorem Stage.Noted.append {stage : Stage} {later : Log} (h : stage.Noted key log) (hl : attempts key later = []) :
    stage.Noted key (log ++ later) := by
  have hsame : attempts key (log ++ later) = attempts key log := by
    rw [attempts_append, hl, List.append_nil]
  unfold Stage.Noted Served at *
  rw [hsame]
  exact h

namespace Place.Due

/-- What is due stays due while nothing is taken down about an attempt of the key. -/
theorem append {p : Place} {later : Log} (h : p.Due key log) (hl : attempts key later = []) :
    p.Due key (log ++ later) := by
  unfold Place.Due at *
  split
  · exact Served.append h later
  · trivial
  · trivial
  · exact Stage.Noted.append h hl

theorem insert (p : Place) (key : Key) (log : Log) : p.insert.Due key log := by
  cases p <;> trivial

/-- Within an attempt a worker may move on without a notice. -/
theorem move {old new : Stage} {again : Bool} {later : Log} (h : (Place.held old again).Due key log)
    (hl : attempts key later = []) (hn : ∀ log, old.Noted key log → new.Noted key log) :
    (Place.held new again).Due key (log ++ later) := by
  cases again with
  | true => trivial
  | false => exact hn _ (Stage.Noted.append h hl)

/-- Every step keeps what is due. A delivery begins an attempt, each step of the attempt notes one
thing more, and the record completes it; a key that goes back marked waits again. -/
theorem step {s t : Standing} {o : Option Notice} (h : s.place.Due key log)
    (hs : Standing.Step setup key clocks s o t) : t.place.Due key (log ++ o.toList.map (clocks.now, ·)) := by
  cases hs with
  | accept => exact insert ..
  | fire => exact insert ..
  | refuse => exact h.append (by simp [attempts, Notice.ofAttempt])
  -- the attempt begins in this part of the log, and nothing of it has been taken down before
  | deliver =>
    refine ⟨clocks.now, ?_⟩
    simp [attempts, Notice.ofAttempt]
  | @begin kind again hp =>
    rw [hp] at h
    cases again with
    | true => trivial
    | false =>
      obtain ⟨t₁, before, hd⟩ := h
      refine ⟨t₁, clocks.now, before, ?_⟩
      rw [attempts_append, ← hd]
      simp [attempts, Notice.ofAttempt]
  -- between its beginning and its record nothing is taken down about an attempt
  | succeed hp | fail hp | drop hp | keep hp | retryCovered hp | retryCancelled hp =>
    rw [hp] at h
    exact h.move (by simp [attempts]) fun _ hn => hn
  | retryLater hp =>
    rw [hp] at h
    exact h.move (by simp [attempts, Notice.ofAttempt]) fun _ hn => hn
  | retryAtOnce => trivial
  | @record a d o again n hp hk =>
    rw [hp] at h
    cases again with
    | true => trivial
    | false =>
      obtain ⟨t₁, t₂, before, hd⟩ := h
      refine ⟨a.trigger, a.record (Uuid.ofAttempt n) d o, t₁, t₂, clocks.now, ⟨before, [], ?_⟩, hk, rfl⟩
      rw [attempts_append, ← hd]
      simp [attempts, Notice.ofAttempt, Attempt.record, hk]
  | @release again hp =>
    rw [hp] at h
    cases again with
    | true => trivial
    | false => exact Served.append h _
  | shut => exact h.append (by simp [attempts])
  -- the record of the supervisor is about no attempt, and the key is not in any hands
  | abandon hc hp =>
    show s.place.Due key _
    cases hs : s.place with
    | resting =>
      rw [hs] at h
      exact Served.append h _
    | waiting => trivial
    | held stage again => exact absurd hs (hp stage again)
  | forget => exact h.append (by simp [attempts])

/-- Every path keeps what is due. -/
theorem of_path {s t : Standing} {later : Log} (hs : s.place.Due key log) (h : Standing.Path setup key s later t) :
    t.place.Due key (log ++ later) := by
  induction h with
  | refl =>
    rw [List.append_nil]
    exact hs
  | step _ hstep ih =>
    rw [← List.append_assoc]
    exact ih.step hstep

end Place.Due

/-- Of a pool that has stopped every key has been taken, and given back. -/
theorem Sound.resting_of_stopped {p : Pool} (h : p.Sound setup) (hw : 1 ≤ setup.workers) (hs : p.phase = .stopped)
    (key : Key) : p.place key = .resting := by
  have he := h.exited_of_stopped hs
  have hne := h.workers_ne_nil hw (by simp [hs])
  cases hp : p.place key with
  | resting => rfl
  | held stage again => exact absurd hp (place_ne_held he key stage again)
  | waiting =>
    have hseat : p.seat key = none := by
      cases hseat : p.seat key with
      | none => rfl
      | some stage =>
        rw [place_of_seat hseat] at hp
        cases hp
    rw [place_of_not_pending hseat (by simp [h.drained hne he])] at hp
    cases hp

/-! ## Refused triggers

A trigger is refused when the queue is shut or the pool has stopped, and a pool that has stopped has
shut its queue. No step opens it again. The statement is about the whole log, and not about one key,
since after the refusal of one key the triggers of all others are refused as well. -/

/-- Once the queue is shut it stays shut, and no trigger of the key is accepted any more. -/
theorem Standing.Path.closed_of_closed {s t : Standing} (hc : s.closed = true)
    (h : Standing.Path setup key s log t) :
    t.closed = true ∧ ∀ m kind, (m, .accepted key kind) ∉ log := by
  induction h with
  | refl => exact ⟨hc, by simp⟩
  | step _ hs ih =>
    obtain ⟨hc, hnone⟩ := ih
    cases hs with
    | accept ho | shut ho =>
      rw [hc] at ho
      cases ho
    | _ => exact ⟨hc, fun m kind => by simpa using hnone m kind⟩

/-- A trigger is refused in a step of its own, and only when the queue is shut. -/
theorem Sound.closed_of_refused {p q : Pool} {a : Action} {notices : List Notice} (h : p.Sound setup)
    (hact : p.act setup clocks a = some (q, notices)) (hr : .refused key ∈ notices) :
    notices = [.refused key] ∧ q.queue.closed = true := by
  cases step_of_act hact with
  | refused hc =>
    obtain rfl : key = _ := by simpa using hr
    exact ⟨rfl, hc.elim id h.closed_of_stopped⟩
  | fired => split at hr <;> simp at hr
  | _ => simp at hr

/-- After a trigger has been refused none is accepted, of whatever key. -/
theorem Sound.pairwise_refused {p q : Pool} {steps : List (Clocks × Action)} (h : p.Sound setup)
    (hrun : run setup p steps = some (q, log)) :
    log.Pairwise fun x y => ∀ k₁ k₂ kind, x.2 = .refused k₁ → y.2 ≠ .accepted k₂ kind := by
  induction steps generalizing p log with
  | nil =>
    cases hrun
    exact .nil
  | cons step steps ih =>
    obtain ⟨clocks, a⟩ := step
    obtain ⟨p', notices, later, hact, hlater, rfl⟩ := run_cons_eq_some.mp hrun
    have h' := sound_of_act h hact
    rw [List.pairwise_append]
    refine ⟨?_, ih h' hlater, ?_⟩
    · rw [List.pairwise_map]
      refine List.pairwise_of_forall_mem_list fun n hn m hm k₁ k₂ kind hr hacc => ?_
      rw [(h.closed_of_refused hact (hr ▸ hn : .refused k₁ ∈ notices)).1, List.mem_singleton] at hm
      exact Notice.noConfusion (hm.symm.trans hacc)
    · intro x hx y hy k₁ k₂ kind hr hacc
      obtain ⟨n, hn, rfl⟩ := List.mem_map.mp hx
      obtain ⟨m, n'⟩ := y
      obtain rfl : n = .refused k₁ := hr
      obtain rfl : n' = .accepted k₂ kind := hacc
      have hc := (h.closed_of_refused hact hn).2
      refine ((path_of_run h' hlater k₂).closed_of_closed hc).2 m kind ?_
      exact List.mem_filter.mpr ⟨hy, by simp [Notice.concerns]⟩

/-! ## The promise

The run is cut at the trigger. Right after it the key waits or is marked, so whatever the log that
begins there has to say, something is due to the key (`Place.Due.insert`). The path of the key
carries this to the end of the run (`Place.Due.of_path`), where the key rests
(`Sound.resting_of_stopped`): there what is due is that it has been served. -/

/-- **No trigger is lost**: when a pool has stopped, every trigger that was accepted was followed by
an attempt of its key that was delivered, began and was recorded after it. At every moment, once a
trigger has been refused, none has been accepted since. -/
theorem no_trigger_lost {capacity : Nat} {steps : List (Clocks × Action)} {p : Pool} (hw : 1 ≤ setup.workers)
    (h : run setup (fresh capacity) steps = some (p, log)) :
    (p.phase = .stopped → ∀ before t key kind after, log = before ++ (t, .accepted key kind) :: after →
        Served key after) ∧
      ∀ before t key after, log = before ++ (t, .refused key) :: after →
        ∀ t' key' kind, (t', .accepted key' kind) ∉ after := by
  have hsound := sound_fresh setup capacity
  constructor
  · rintro hs before t key kind after rfl
    obtain ⟨s, clocks, s', -, hstep, -, hlater⟩ := exists_step_of_run h (decide_eq_true (Eq.refl key))
    -- at the trigger the key is put in; when the pool has stopped it rests
    have hdue : s'.place.Due key [] := by
      cases hstep with
      | accept => exact Place.Due.insert ..
    have hserved := Place.Due.of_path hdue hlater
    rw [List.nil_append, standing, (sound_of_run h).resting_of_stopped hw hs] at hserved
    obtain ⟨kind', r, t₁, t₂, t₃, hin, hr⟩ := hserved
    rw [attempts_about] at hin
    exact ⟨kind', r, t₁, t₂, t₃, hin, hr⟩
  · rintro before t key after rfl t' key' kind hmem
    have hpair := (List.pairwise_append.mp (hsound.pairwise_refused h)).2.1
    exact (List.pairwise_cons.mp hpair).1 _ hmem key key' kind rfl rfl

/-- A key is triggered before the pool runs, and again while it is handled and the pool is about to
stop; a third trigger is refused. -/
theorem no_trigger_lost_while_stopping :
    ∃ p log, run ⟨1, 0, .fixed Span.zero, none⟩ (fresh 10) (allAt ⟨0, .epoch⟩
        [.trigger "a" .manual, .run, .work 0, .work 0, .trigger "a" .auto, .stop, .supervise, .supervise,
          .trigger "a" .manual, .finish 0 .success, .work 0, .work 0, .work 0, .work 0, .finish 0 .success,
          .work 0, .work 0, .work 0, .supervise, .supervise]) = some (p, log) ∧
      p.phase = .stopped ∧
      (∃ before after, log = before ++ (0, .accepted "a" .auto) :: after ∧ Served "a" after) ∧
      ∃ before after, log = before ++ (0, .refused "a") :: after ∧ ∀ t key kind, (t, .accepted key kind) ∉ after := by
  generalize hr : run _ _ _ = r
  have hseen : r.map (fun r => (r.1.phase, decide ((0, .accepted "a" .auto) ∈ r.2), decide ((0, .refused "a") ∈ r.2))) =
      some (.stopped, true, true) := by
    rw [← hr]
    decide +kernel
  obtain ⟨⟨p, log⟩, rfl, hmap⟩ := Option.map_eq_some_iff.mp hseen
  simp only [Prod.mk.injEq, decide_eq_true_eq] at hmap
  obtain ⟨hstopped, haccepted, hrefused⟩ := hmap
  obtain ⟨hserved, hnone⟩ := no_trigger_lost (by decide) hr
  obtain ⟨before, after, hsplit⟩ := List.append_of_mem haccepted
  obtain ⟨before', after', hsplit'⟩ := List.append_of_mem hrefused
  exact ⟨p, log, rfl, hstopped, ⟨before, after, hsplit, hserved hstopped before 0 "a" .auto after hsplit⟩,
    before', after', hsplit', hnone before' 0 "a" after' hsplit'⟩

end ControlLoop.Pool
