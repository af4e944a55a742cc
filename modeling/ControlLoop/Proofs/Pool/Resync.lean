import ControlLoop.Proofs.Pool.Closing
import ControlLoop.Proofs.Pool.Drain

/-!
# The rhythm of the resync

A resync that is always in time (`punctual`) ticks at the moments `tickAt`, one period after the
other, and at no others. At a tick it takes the keys of the source, and then puts them in one by one
(`Pool.put`). Each of these is a step of its own, and whatever else goes on may come between two of
them; but all of them are taken at the moment of the tick. So what the resync puts in is what it has
taken, in the same order (`Resynced.inserted`), and when the pool has stopped each key of a tick has
been served since (`Resynced.served`).

`Resync.Turn` lists what a step can do to the resync of a pool that has begun to run. `OnBeat` says
of every moment of such a run how the ticks, the keys that were put in and the keys that are left go
together; `OnBeat.turn` shows that each turn keeps it, and `onBeat_of_run` that every run does. The
end of the resync is looked at by itself: it comes only after the signal to stop
(`stopRequested_of_ended`), and after it nothing is put in (`silent_of_ended`).
-/

namespace ControlLoop.Pool

variable {setup : Setup} {clocks : Clocks} {period : Span} {p q r : Pool} {a : Action} {notices : List Notice}
  {log : Log} {steps : List (Clocks × Action)} {key : Key}

/-! ## Ticks

What the resync does is read off the steps of a run: `ticks` and `puts` are functions of the list of
steps alone. Whether it is in time depends on the pool as well, since the pool knows when the next
tick is due. -/

/-- The ticks of the resync: when they came, and which keys it took. -/
def ticks (steps : List (Clocks × Action)) : List (Moment × List Key) :=
  steps.filterMap fun
    | (clocks, .tick keys) => some (clocks.now, keys)
    | _ => none

/-- The keys that the resync has put in, each with the moment at which it did. -/
def puts (steps : List (Clocks × Action)) : List (Moment × Key) :=
  steps.filterMap fun
    | (clocks, .put key) => some (clocks.now, key)
    | _ => none

/-- What is to be put in after some ticks: the keys of each tick in their order, at its moment. -/
def listed (ticks : List (Moment × List Key)) : List (Moment × Key) := ticks.flatMap fun tick => tick.2.map (tick.1, ·)

/-- The moment of a tick, where the first has the number zero, if the pool began to run at
`start`. -/
def tickAt (period : Span) (start : Moment) (i : Nat) : Moment := start + (i + 1) * period.nanos

/-- The resync is in time: the moment of its next tick has not passed, and if keys are left of the
last tick, nor has the moment of that one. -/
def Resync.inTime (period : Span) (now : Moment) : Resync → Bool
  | ticking next [] => now ≤ next
  | ticking next (_ :: _) => now + period.nanos ≤ next
  | absent | ended => true

/-- The resync is always in time: it ticks when it is due, and puts in what it has taken, before
anything happens later. This is what a run in virtual time gives, where time passes only when nobody
has anything left to do. -/
def punctual (period : Span) (setup : Setup) (p : Pool) : List (Clocks × Action) → Bool
  | [] => true
  | (clocks, a) :: steps =>
    p.resync.inTime period clocks.now &&
      match p.act setup clocks a with
      | none => true
      | some (q, _) => punctual period setup q steps

/-- The ticks of two lists of steps are those of the first and then those of the second. -/
@[simp] theorem ticks_append (first second : List (Clocks × Action)) :
    ticks (first ++ second) = ticks first ++ ticks second := List.filterMap_append

/-- The keys that are put in along two parts of a run are those of the first and then those of the
second. -/
@[simp] theorem puts_append (first second : List (Clocks × Action)) :
    puts (first ++ second) = puts first ++ puts second := List.filterMap_append

theorem ticks_singleton_of_ne (h : ∀ keys, a ≠ .tick keys) : ticks [(clocks, a)] = [] := by
  cases a <;> first | rfl | exact absurd rfl (h _)

theorem puts_singleton_of_ne (h : ∀ key, a ≠ .put key) : puts [(clocks, a)] = [] := by
  cases a <;> first | rfl | exact absurd rfl (h _)

/-- The keys of ticks that follow each other are listed one tick after the other. -/
@[simp] theorem listed_append (first second : List (Moment × List Key)) :
    listed (first ++ second) = listed first ++ listed second := List.flatMap_append

/-- A key is listed with a moment if a tick of that moment took it. -/
theorem mem_listed {e : Moment × Key} {ticks : List (Moment × List Key)} :
    e ∈ listed ticks ↔ ∃ keys, (e.1, keys) ∈ ticks ∧ e.2 ∈ keys := by
  simp only [listed, List.mem_flatMap, List.mem_map]
  constructor
  · rintro ⟨⟨t, keys⟩, htick, key, hkey, rfl⟩
    exact ⟨keys, htick, hkey⟩
  · rintro ⟨keys, htick, hkey⟩
    exact ⟨(e.1, keys), htick, e.2, hkey, rfl⟩

theorem exists_step_of_mem_ticks {tick : Moment × List Key} (h : tick ∈ ticks steps) :
    ∃ s ∈ steps, s.1.now = tick.1 := by
  obtain ⟨⟨clocks, a⟩, hs, htick⟩ := List.mem_filterMap.mp h
  cases a <;> cases htick
  exact ⟨_, hs, rfl⟩

/-- What was put in was put in by a step of its own. -/
theorem exists_step_of_mem_puts {e : Moment × Key} (h : e ∈ puts steps) :
    ∃ first clocks rest, steps = first ++ (clocks, .put e.2) :: rest ∧ clocks.now = e.1 := by
  obtain ⟨⟨clocks, a⟩, hs, hput⟩ := List.mem_filterMap.mp h
  obtain ⟨first, rest, rfl⟩ := List.append_of_mem hs
  cases a <;> cases hput
  exact ⟨first, clocks, rest, rfl, rfl⟩

theorem tickAt_succ (period : Span) (start : Moment) (i : Nat) :
    tickAt period start (i + 1) = tickAt period start i + period.nanos := by
  rw [tickAt, tickAt, Nat.succ_mul, Nat.add_assoc]

theorem tickAt_mono (period : Span) (start : Moment) {i j : Nat} (h : i ≤ j) :
    tickAt period start i ≤ tickAt period start j :=
  Nat.add_le_add_left (Nat.mul_le_mul_right _ (Nat.succ_le_succ h)) _

/-- A resync is punctual along a run if it is in time at the first step, and punctual along the
rest. -/
theorem punctual_cons_iff : punctual period setup p ((clocks, a) :: steps) = true ↔
    p.resync.inTime period clocks.now = true ∧
      ∀ q notices, p.act setup clocks a = some (q, notices) → punctual period setup q steps = true := by
  rw [punctual, Bool.and_eq_true]
  refine and_congr_right fun _ => ?_
  cases p.act setup clocks a with
  | none => simp
  | some change =>
    constructor
    · rintro h q notices ⟨⟩
      exact h
    · intro h
      exact h _ _ rfl

/-- Of a run whose resync is always in time each part is one. -/
theorem punctual_of_append {first second : List (Clocks × Action)}
    (h : punctual period setup p (first ++ second) = true) :
    punctual period setup p first = true ∧
      ∀ {q : Pool} {log : Log}, run setup p first = some (q, log) → punctual period setup q second = true := by
  induction first generalizing p with
  | nil =>
    refine ⟨rfl, ?_⟩
    rintro q log hrun
    cases hrun
    exact h
  | cons step first ih =>
    obtain ⟨clocks, a⟩ := step
    obtain ⟨hintime, hrest⟩ := punctual_cons_iff.mp h
    constructor
    · exact punctual_cons_iff.mpr ⟨hintime, fun q notices hact => (ih (hrest q notices hact)).1⟩
    · intro q log hrun
      obtain ⟨p', notices, later, hact, hfirst, -⟩ := run_cons_eq_some.mp hrun
      exact (ih (hrest p' notices hact)).2 hfirst

/-- Until the next tick is over, it is not yet time for the one after it. -/
theorem Resync.le_of_inTime {now next : Moment} {left : List Key}
    (h : (Resync.ticking next left).inTime period now = true) : now ≤ next := by
  cases left with
  | nil => exact of_decide_eq_true h
  | cons key left => exact Nat.le_trans (Nat.le_add_right ..) (of_decide_eq_true h)

/-! ## One step -/

/-- What a step does to the resync of a pool that has begun to run: it ticks and takes the keys,
puts one of them in, ends, or is left as it is. -/
inductive Resync.Turn (setup : Setup) (clocks : Clocks) : Resync → Action → Resync → Prop where
  /-- it ticks -/
  | tick {keys due rhythm} (hs : setup.resync = some rhythm) (hdue : due ≤ clocks.now) :
    Turn setup clocks (.ticking due []) (.tick keys) (.ticking (nextTick clocks.now due rhythm.period) keys)
  /-- it puts in the next of its keys -/
  | put {key next left} : Turn setup clocks (.ticking next (key :: left)) (.put key) (.ticking next left)
  /-- it ends -/
  | finish {next} : Turn setup clocks (.ticking next []) .endResync .ended
  /-- nothing -/
  | other {a : Action} {r : Resync} (ht : ∀ keys, a ≠ .tick keys) (hp : ∀ key, a ≠ .put key) (he : a ≠ .endResync) :
    Turn setup clocks r a r

theorem phase_ne_idle_of_act (h : p.phase ≠ .idle) (hact : p.act setup clocks a = some (q, notices)) :
    q.phase ≠ .idle := by
  cases step_of_act hact with
  | started | stopped => exact nofun
  | _ => exact h

/-- Once the pool has begun to run, a step is one of the turns of the resync, or passes it by. So
what the resync does is told without looking at the rest of the pool. -/
theorem resync_turn_of_act (hi : p.phase ≠ .idle) (hact : p.act setup clocks a = some (q, notices)) :
    Resync.Turn setup clocks p.resync a q.resync := by
  cases step_of_act hact with
  | started hidle => exact absurd hidle hi
  | ticked hr hs hdue =>
    rw [hr]
    exact .tick hs hdue
  | put _ hr | putLate _ hr =>
    rw [hr]
    exact .put
  | resyncEnded hr =>
    rw [hr]
    exact .finish
  | _ => exact .other nofun nofun nofun

/-! ## On the beat

The invariant `OnBeat` counts: after so many ticks the next one is due so many periods after the
start. Of the keys it says that those of all ticks are those that were put in and those that are
left, in this order. That keys which are left are put in at the moment of their tick follows from
two bounds: the tick was a step, so the clock shows no less, and the resync is in time, so it shows
no more. -/

/-- How the ticks, the keys that were put in and the keys that are left go together, if the pool
began to run at `start` and the steps were taken since: tick by tick a period later, and key by key
in the order of the ticks. -/
structure OnBeat (period : Span) (start : Moment) (steps : List (Clocks × Action)) (r : Resync) : Prop where
  /-- the ticks have come in step with the period -/
  rhythm : (ticks steps).map Prod.fst = (List.range (ticks steps).length).map (tickAt period start)
  /-- and so will the next, unless the resync has ended -/
  stage : r = .ended ∨ ∃ left, r = .ticking (tickAt period start (ticks steps).length) left
  /-- what has been taken was put in, but for what is left of the last tick, whose moment has not
  passed -/
  inserted : ∃ t, listed (ticks steps) = puts steps ++ r.left.map (t, ·) ∧
    (r.left ≠ [] → t + period.nanos = tickAt period start (ticks steps).length ∧ ∀ s ∈ steps, s.1.now ≤ t)

namespace OnBeat

variable {start : Moment} {s s' : Resync}

/-- When the pool begins to run the first tick is a period away. -/
theorem started (period : Span) (start : Moment) : OnBeat period start [] (.ticking (start + period.nanos) []) where
  rhythm := rfl
  stage := by
    refine .inr ⟨[], ?_⟩
    show _ = Resync.ticking (start + (0 + 1) * period.nanos) []
    rw [Nat.zero_add, Nat.one_mul]
  inserted := ⟨start, rfl, fun hne => absurd rfl hne⟩

theorem next {next : Moment} {left : List Key} (h : OnBeat period start steps (.ticking next left)) :
    next = tickAt period start (ticks steps).length := by
  rcases h.stage with hended | ⟨left', hticking⟩
  · cases hended
  · exact (Resync.ticking.inj hticking).1

/-- A key is left that was taken at some tick, and this tick was a step. -/
theorem exists_step_of_left {t : Moment} {key : Key} {left : List Key}
    (h : listed (ticks steps) = puts steps ++ (key :: left).map (t, ·)) : ∃ s ∈ steps, s.1.now = t := by
  have hmem : (t, key) ∈ listed (ticks steps) := by
    rw [h]
    exact List.mem_append_right _ List.mem_cons_self
  obtain ⟨keys, htick, -⟩ := mem_listed.mp hmem
  exact exists_step_of_mem_ticks htick

/-- A tick that is punctual comes at its moment, when all keys of the tick before have been put
in. -/
theorem tick {keys : List Key} {due : Moment} (h : OnBeat period start steps (.ticking due []))
    (horder : ∀ s ∈ steps, s.1.now ≤ clocks.now) (hnow : clocks.now = due) :
    OnBeat period start (steps ++ [(clocks, .tick keys)]) (.ticking (nextTick clocks.now due period) keys) := by
  have hticks : ticks (steps ++ [(clocks, .tick keys)]) = ticks steps ++ [(clocks.now, keys)] := ticks_append ..
  have hputs : puts (steps ++ [(clocks, .tick keys)]) = puts steps ++ [] := puts_append ..
  have hbeat : clocks.now = tickAt period start (ticks steps).length := hnow.trans h.next
  -- it is not late, so the next tick is counted from this one
  have hnext : nextTick clocks.now due period = clocks.now + period.nanos := by
    rw [nextTick, hnow, if_neg (Nat.not_lt.mpr (Nat.le_add_right due tolerance))]
  have hlength : (ticks (steps ++ [(clocks, .tick keys)])).length = (ticks steps).length + 1 := by
    rw [hticks, List.length_append, List.length_singleton]
  refine ⟨?_, ?_, clocks.now, ?_, ?_⟩
  · rw [hlength, hticks, List.map_append, h.rhythm, List.range_succ, List.map_append, List.map_singleton,
      List.map_singleton, hbeat]
  · exact .inr ⟨keys, by rw [hlength, tickAt_succ, ← hbeat, hnext]⟩
  · obtain ⟨t, hinserted, -⟩ := h.inserted
    rw [hticks, hputs, listed_append, hinserted]
    simp [listed, Resync.left]
  · intro _
    rw [hlength, tickAt_succ, ← hbeat]
    exact ⟨rfl, List.forall_mem_append.mpr ⟨horder, List.forall_mem_singleton.mpr (Nat.le_refl _)⟩⟩

/-- A key is put in at the moment of its tick: a period has still to pass until the next one, so the
last tick came just now. -/
theorem put {next : Moment} {left : List Key} (h : OnBeat period start steps (.ticking next (key :: left)))
    (horder : ∀ s ∈ steps, s.1.now ≤ clocks.now) (hintime : clocks.now + period.nanos ≤ next) :
    OnBeat period start (steps ++ [(clocks, .put key)]) (.ticking next left) := by
  have hticks : ticks (steps ++ [(clocks, .put key)]) = ticks steps := by
    rw [ticks_append, ticks_singleton_of_ne (a := .put key) nofun, List.append_nil]
  have hputs : puts (steps ++ [(clocks, .put key)]) = puts steps ++ [(clocks.now, key)] := puts_append ..
  obtain ⟨t, hinserted, hbeat⟩ := h.inserted
  obtain ⟨hperiod, hsteps⟩ := hbeat (List.cons_ne_nil key left)
  -- the moment of the tick has come, and it has not passed
  have hnow : clocks.now = t := by
    obtain ⟨s, hs, rfl⟩ := exists_step_of_left hinserted
    refine Nat.le_antisymm ?_ (horder s hs)
    rw [h.next, ← hperiod] at hintime
    exact Nat.le_of_add_le_add_right hintime
  refine ⟨by rw [hticks, h.rhythm], .inr ⟨left, by rw [hticks, h.next]⟩, t, ?_, ?_⟩
  · rw [hticks, hputs, hinserted, hnow, List.append_assoc]
    rfl
  · intro _
    rw [hticks]
    exact ⟨hperiod, List.forall_mem_append.mpr ⟨hsteps, List.forall_mem_singleton.mpr (Nat.le_of_eq hnow)⟩⟩

/-- A step that does nothing to the resync. -/
theorem pass (h : OnBeat period start steps s) (ht : ∀ keys, a ≠ .tick keys) (hp : ∀ key, a ≠ .put key)
    (hintime : s.inTime period clocks.now = true) : OnBeat period start (steps ++ [(clocks, a)]) s := by
  have hticks : ticks (steps ++ [(clocks, a)]) = ticks steps := by
    rw [ticks_append, ticks_singleton_of_ne ht, List.append_nil]
  have hputs : puts (steps ++ [(clocks, a)]) = puts steps := by
    rw [puts_append, puts_singleton_of_ne hp, List.append_nil]
  obtain ⟨t, hinserted, hbeat⟩ := h.inserted
  refine ⟨by rw [hticks, h.rhythm], by rw [hticks]; exact h.stage, t, by rw [hticks, hputs, hinserted], fun hne => ?_⟩
  obtain ⟨hperiod, hsteps⟩ := hbeat hne
  rw [hticks]
  refine ⟨hperiod, List.forall_mem_append.mpr ⟨hsteps, List.forall_mem_singleton.mpr ?_⟩⟩
  -- keys are left, so the moment of the tick has not passed
  cases s with
  | absent | ended => exact absurd rfl hne
  | ticking next left =>
    cases left with
    | nil => exact absurd rfl hne
    | cons key left =>
      have hle : clocks.now + period.nanos ≤ next := of_decide_eq_true hintime
      rw [h.next, ← hperiod] at hle
      exact Nat.le_of_add_le_add_right hle

theorem ended (h : OnBeat period start steps s) (hl : s.left = []) : OnBeat period start steps .ended := by
  obtain ⟨t, hinserted, -⟩ := h.inserted
  rw [hl] at hinserted
  exact ⟨h.rhythm, .inl rfl, t, hinserted, fun hne => absurd rfl hne⟩

/-- Every turn of a resync that is in time stays on the beat. -/
theorem turn (h : OnBeat period start steps s) (hperiod : setup.resync = some (.every period))
    (horder : ∀ s ∈ steps, s.1.now ≤ clocks.now) (hintime : s.inTime period clocks.now = true)
    (hturn : Resync.Turn setup clocks s a s') : OnBeat period start (steps ++ [(clocks, a)]) s' := by
  cases hturn with
  | tick hs hdue =>
    obtain rfl := Option.some.inj (hperiod.symm.trans hs)
    exact h.tick horder (Nat.le_antisymm (of_decide_eq_true hintime) hdue)
  | put => exact h.put horder (of_decide_eq_true hintime)
  | finish => exact (h.pass (a := .endResync) nofun nofun hintime).ended rfl
  | other ht hp _ => exact h.pass ht hp hintime

end OnBeat

/-! ## Along a run -/

/-- The step of a run that stands between two others, and the log before it and after it. -/
theorem exists_act_of_run_append {first second : List (Clocks × Action)}
    (h : run setup p (first ++ (clocks, a) :: second) = some (r, log)) :
    ∃ q q' notices earlier later, run setup p first = some (q, earlier) ∧
      q.act setup clocks a = some (q', notices) ∧ run setup q' second = some (r, later) ∧
      log = earlier ++ (notices.map (clocks.now, ·) ++ later) := by
  obtain ⟨q, earlier, _, hfirst, hrest, rfl⟩ := run_append_eq_some.mp h
  obtain ⟨q', notices, later, hact, hsecond, rfl⟩ := run_cons_eq_some.mp hrest
  exact ⟨q, q', notices, earlier, later, hfirst, hact, hsecond, rfl⟩

theorem phase_ne_idle_of_run (h : p.phase ≠ .idle) (hrun : run setup p steps = some (q, log)) : q.phase ≠ .idle :=
  run_keeps (·.phase ≠ .idle) phase_ne_idle_of_act h hrun

/-- Steps in order may be split, and all of the first part come before all of the second. -/
theorem InOrder.of_append {first second : List (Clocks × Action)} (h : InOrder (first ++ second)) :
    InOrder first ∧ InOrder second ∧ ∀ s ∈ first, ∀ s' ∈ second, s.1.now ≤ s'.1.now := by
  rw [InOrder, List.map_append] at h
  obtain ⟨hfirst, hsecond, hle⟩ := List.pairwise_append.mp h
  exact ⟨hfirst, hsecond, fun s hs s' hs' => hle _ (List.mem_map_of_mem hs) _ (List.mem_map_of_mem hs')⟩

/-- **The rhythm**: a resync that is always in time stays on the beat along every run from the
moment at which the pool began to run. The induction goes along the run; at each step the moment
tells whether the next tick has come (`OnBeat.turn`). -/
theorem onBeat_of_run {start : Moment} (hperiod : setup.resync = some (.every period)) (hi : p.phase ≠ .idle)
    (hticking : p.resync = .ticking (start + period.nanos) []) (horder : InOrder steps)
    (hpunctual : punctual period setup p steps = true) (hrun : run setup p steps = some (q, log)) :
    OnBeat period start steps q.resync := by
  induction steps using List.reverseRecOn generalizing q log with
  | nil =>
    cases hrun
    rw [hticking]
    exact .started period start
  | append_singleton steps step ih =>
    obtain ⟨clocks, a⟩ := step
    obtain ⟨q', earlier, notices, hfirst, hact, -⟩ := run_concat_eq_some.mp hrun
    obtain ⟨hpunctual', hlast⟩ := punctual_of_append hpunctual
    obtain ⟨horder', -, hle⟩ := horder.of_append
    have hbeat := ih horder' hpunctual' hfirst
    refine hbeat.turn hperiod (fun s hs => hle s hs _ (List.mem_singleton_self _)) ?_ ?_
    · exact (punctual_cons_iff.mp (hlast hfirst)).1
    · exact resync_turn_of_act (phase_ne_idle_of_run hi hfirst) hact

/-- A resync that has ended puts in nothing any more. -/
theorem silent_of_ended (hi : p.phase ≠ .idle) (hended : p.resync = .ended)
    (hrun : run setup p steps = some (q, log)) : ticks steps = [] ∧ puts steps = [] := by
  induction steps generalizing p log with
  | nil => exact ⟨rfl, rfl⟩
  | cons step steps ih =>
    obtain ⟨clocks, a⟩ := step
    obtain ⟨p', notices, later, hact, hlater, -⟩ := run_cons_eq_some.mp hrun
    have hturn := resync_turn_of_act hi hact
    rw [hended] at hturn
    generalize hended' : p'.resync = s at hturn
    cases hturn with
    | other ht hp =>
      obtain ⟨hticks, hputs⟩ := ih (phase_ne_idle_of_act hi hact) hended' hlater
      rw [← List.singleton_append, ticks_append, puts_append, hticks, hputs, ticks_singleton_of_ne ht,
        puts_singleton_of_ne hp]
      exact ⟨rfl, rfl⟩

/-! ## Before the pool runs, and after the signal to stop

A pool that is idle has no resync yet, and one whose resync has ended has been told to stop. Both
are invariants of a single step, and bound the part of a run in which there may be ticks. -/

/-- A pool that has not run has no resync, and so has had none. -/
theorem silent_of_idle {capacity : Nat} (h : run setup (fresh capacity) steps = some (p, log)) (hi : p.phase = .idle) :
    p.resync = .absent ∧ ticks steps = [] ∧ puts steps = [] := by
  induction steps using List.reverseRecOn generalizing p log with
  | nil =>
    cases h
    exact ⟨rfl, rfl, rfl⟩
  | append_singleton steps step ih =>
    obtain ⟨clocks, a⟩ := step
    obtain ⟨q, earlier, notices, hfirst, hact, -⟩ := run_concat_eq_some.mp h
    have hidle : q.phase = .idle := by
      by_contra hne
      exact phase_ne_idle_of_act hne hact hi
    obtain ⟨hnone, hticks, hputs⟩ := ih hfirst hidle
    rw [ticks_append, puts_append, hticks, hputs]
    cases step_of_act hact with
    | started => cases hi
    | ticked hr | put _ hr | putLate _ hr | resyncEnded hr =>
      rw [hnone] at hr
      cases hr
    | _ => exact ⟨hnone, rfl, rfl⟩

/-- The resync ends only after the signal to stop. -/
theorem stopRequested_of_ended {capacity : Nat} (h : run setup (fresh capacity) steps = some (p, log))
    (hended : p.resync = .ended) : p.stopRequested = true := by
  have hkeeps : ∀ {p q : Pool} {clocks a notices}, p.Heeds ∧ (p.resync = .ended → p.stopRequested = true) →
      p.act setup clocks a = some (q, notices) → q.Heeds ∧ (q.resync = .ended → q.stopRequested = true) := by
    rintro p q clocks a notices ⟨hheeds, hended⟩ hact
    refine ⟨heeds_of_act hheeds hact, ?_⟩
    intro hq
    cases step_of_act hact with
    | stopRequested => rfl
    | started =>
      simp only [start] at hq
      split at hq <;> cases hq
    | ticked | put | putLate => cases hq
    | resyncEnded _ hs => exact (hheeds.resolve_left (by simp [hs])).resolve_left (by simp [hs])
    | _ => exact hended hq
  have hfresh : (fresh capacity).resync = .ended → (fresh capacity).stopRequested = true := by
    intro hended
    cases hended
  exact (run_keeps (fun p => p.Heeds ∧ (p.resync = .ended → p.stopRequested = true)) hkeeps ⟨.inl rfl, hfresh⟩ h).2
    hended

/-- Without the signal to stop nothing tells a pool to stop. -/
theorem stopRequested_of_run (hstop : ∀ s ∈ steps, s.2 ≠ .stop) (h : run setup p steps = some (q, log)) :
    q.stopRequested = p.stopRequested := by
  induction steps generalizing p log with
  | nil =>
    cases h
    rfl
  | cons step steps ih =>
    obtain ⟨clocks, a⟩ := step
    obtain ⟨p', notices, later, hact, hlater, -⟩ := run_cons_eq_some.mp h
    obtain ⟨ha, hsteps⟩ := List.forall_mem_cons.mp hstop
    exact (ih hsteps hlater).trans (stopRequested_of_act ha hact)

/-! ## What is put in

To put a key in is to trigger it, so that a key which waits already is not moved, one that is held
is marked, and a manual trigger that is noted still outweighs. The queue is open, because the
supervisor waits for the end of the resync before it shuts it (`open_of_ticking`); and what is put
in is served by the time the pool has stopped, by the same argument as for any trigger
(`Place.Due`). -/

/-- The resync has put in a key: unless it waited already or was handed out it stands at the end of
the line, and it is known that something sets its next delivery off, the resync or what outweighs
it. Nothing has changed about any other key, nor about anything else in the pool. -/
structure PutIn (key : Key) (p q : Pool) : Prop where
  /-- the line -/
  pending : q.queue.pending =
    if key ∈ p.queue.processing ∨ key ∈ p.queue.pending then p.queue.pending else p.queue.pending ++ [key]
  /-- the key comes to wait, or is marked if a worker holds it -/
  standing : q.standing key =
    { p.standing key with place := (p.standing key).place.insert, kind := some ((p.standing key).kind.getD .auto) }
  /-- the other keys -/
  others : ∀ k, k ≠ key → q.standing k = p.standing k
  /-- the rest of the pool -/
  rest : q = { p with queue := q.queue, kinds := q.kinds, resync := q.resync }

theorem outweigh_auto (old : Option Trigger) : outweigh .auto old = old.getD .auto := by
  cases old <;> rfl

/-- The resync puts a key in. -/
theorem putIn_accept (h : p.Sound setup) (key : Key) (resync : Resync) :
    PutIn key p { p.accept key .auto with resync } where
  pending := by
    show (p.queue.insert key).pending = _
    by_cases hout : key ∈ p.queue.processing
    · rw [Queue.insert_of_mem_processing hout, if_pos (.inl hout)]
    · by_cases hwaits : key ∈ p.queue.pending
      · rw [Queue.insert_of_mem_queued hout ((h.queue.mem_queued key).mpr hwaits), if_pos (.inr hwaits)]
      · rw [Queue.insert_of_not_mem hout (mt (h.queue.mem_queued key).mp hwaits), if_neg (not_or.mpr ⟨hout, hwaits⟩)]
        rfl
  standing := by
    rw [← outweigh_auto]
    exact h.standing_accept_self .auto
  others k hk := h.standing_accept_of_ne (Ne.symm hk) .auto
  rest := rfl

/-- While the resync ticks the queue is open. -/
theorem open_of_ticking {next : Moment} {left : List Key} (h : p.Sound setup) (hwind : p.WindingUp)
    (hticking : p.resync = .ticking next left) : p.queue.closed = false := by
  rw [h.closed_eq]
  by_contra hshut
  rw [Bool.not_eq_false] at hshut
  exact hwind.resync hshut next left hticking

/-- When the pool has stopped no key of a tick is left. -/
theorem left_of_stopped (h : p.Sound setup) (hwind : p.WindingUp) (hs : p.phase = .stopped) : p.resync.left = [] := by
  have hshut : p.supervisor.hasShut = true := by
    rw [h.stopped hs]
    rfl
  cases hr : p.resync with
  | absent | ended => rfl
  | ticking next left => exact absurd hr (hwind.resync hshut next left)

/-- The resync finds the queue open, since the supervisor waits for its end before shutting it; so
what is put in is accepted. -/
theorem put_of_act (h : p.Sound setup) (hwind : p.WindingUp)
    (hact : p.act setup clocks (.put key) = some (q, notices)) :
    notices = [.accepted key .auto] ∧ PutIn key p q := by
  cases step_of_act hact with
  | put => exact ⟨rfl, putIn_accept h key _⟩
  | putLate hc hr =>
    rw [open_of_ticking h hwind hr] at hc
    cases hc

/-- An attempt that is found in the part of a log about a key is in the log. -/
theorem Served.of_about (h : Served key (about key log)) : Served key log := by
  obtain ⟨kind, r, t₁, t₂, t₃, hin, hr⟩ := h
  rw [attempts_about] at hin
  exact ⟨kind, r, t₁, t₂, t₃, hin, hr⟩

/-- What was put in has been served when the pool has stopped. -/
theorem served_of_putIn (hq : q.Sound setup) (hput : PutIn key p q) (hw : 1 ≤ setup.workers)
    (hrun : run setup q steps = some (r, log)) (hs : r.phase = .stopped) : Served key log := by
  have hdue : (q.standing key).place.Due key [] := by
    rw [hput.standing]
    exact Place.Due.insert ..
  have hserved := Place.Due.of_path hdue (path_of_run hq hrun key)
  have hr : r.Sound setup := run_keeps (Sound setup) sound_of_act hq hrun
  rw [List.nil_append, standing, hr.resting_of_stopped hw hs] at hserved
  exact Served.of_about hserved

/-! ## The resync -/

/-- What the resync of a pool has done that began to run at `start`, after some steps `before` and
before others `after` that led to a pool `p`: which ticks there were and when, which keys were put
in and how, and that each of them is served. -/
structure Resynced (setup : Setup) (capacity : Nat) (period : Span) (before : List (Clocks × Action)) (start : Clocks)
    (after : List (Clocks × Action)) (p : Pool) (log : Log) : Prop where
  /-- before the pool ran there were no ticks, and nothing was put in -/
  unstarted : ticks before = [] ∧ puts before = []
  /-- since then the ticks have come in step with the period -/
  rhythm : (ticks after).map Prod.fst = (List.range (ticks after).length).map (tickAt period start.now)
  /-- before the signal to stop no tick is left out -/
  complete : ∀ mid clocks a rest, after = mid ++ (clocks, a) :: rest → (∀ s ∈ before ++ mid, s.2 ≠ .stop) →
    ∀ i, tickAt period start.now i < clocks.now → tickAt period start.now i ∈ (ticks mid).map Prod.fst
  /-- all keys of a tick are put in, in their order and at its moment, and nothing else is; if some
  are left this moment has not passed -/
  inserted : ∃ t, listed (ticks after) = puts after ++ p.resync.left.map (t, ·) ∧
    (p.resync.left ≠ [] → ∀ s ∈ after, s.1.now ≤ t)
  /-- a key that is put in is accepted, on the pool's own account -/
  accepted : ∀ mid clocks key rest, after = mid ++ (clocks, .put key) :: rest →
    ∃ q q' earlier later, run setup (fresh capacity) (before ++ (start, .run) :: mid) = some (q, earlier) ∧
      q.act setup clocks (.put key) = some (q', [.accepted key .auto]) ∧ run setup q' rest = some (p, later) ∧
      PutIn key q q'
  /-- when the resync has ended there are no more ticks, and nothing is put in any more -/
  silent : ∀ mid clocks rest, after = mid ++ (clocks, .endResync) :: rest → ticks rest = [] ∧ puts rest = []
  /-- when the pool has stopped each key of a tick has been put in, and has since been delivered,
  has begun and was recorded -/
  served : p.phase = .stopped → p.resync.left = [] ∧ ∀ tick ∈ ticks after, ∀ key ∈ tick.2,
    ∃ earlier later, log = earlier ++ later ∧ Served key later ∧ ∀ e ∈ later, tick.1 ≤ e.1

section

variable {capacity : Nat} {before mid after : List (Clocks × Action)} {start : Clocks}

theorem start_phase_ne_idle (p : Pool) : (p.start setup clocks).phase ≠ .idle := fun hidle => by cases hidle

/-- A run in which the pool begins to run at a step. -/
theorem exists_start_of_run (h : run setup (fresh capacity) (before ++ (start, .run) :: after) = some (p, log)) :
    ∃ u earlier later, run setup (fresh capacity) before = some (u, earlier) ∧ u.phase = .idle ∧
      run setup (u.start setup start) after = some (p, later) := by
  obtain ⟨u, u', notices, earlier, later, hbefore, hact, hafter, -⟩ := exists_act_of_run_append h
  cases step_of_act hact with
  | started hi => exact ⟨u, earlier, later, hbefore, hi, hafter⟩

/-- Since the pool began to run the resync is on the beat. -/
theorem onBeat_of_started (hperiod : setup.resync = some (.every period))
    (horder : InOrder (before ++ (start, .run) :: mid))
    (hpunctual : punctual period setup (fresh capacity) (before ++ (start, .run) :: mid) = true)
    (h : run setup (fresh capacity) (before ++ (start, .run) :: mid) = some (q, log)) :
    OnBeat period start.now mid q.resync := by
  obtain ⟨u, earlier, later, hbefore, hi, hmid⟩ := exists_start_of_run h
  have hrest := (punctual_of_append hpunctual).2 hbefore
  have hact : u.act setup start .run = some (u.start setup start, []) := if_pos hi
  have hticking : (u.start setup start).resync = .ticking (start.now + period.nanos) [] := by
    simp only [Pool.start, hperiod, Rhythm.every]
  refine onBeat_of_run hperiod (start_phase_ne_idle u) hticking ?_ ((punctual_cons_iff.mp hrest).2 _ _ hact) hmid
  exact (List.pairwise_cons.mp horder.of_append.2.1).2

/-- Before the signal to stop no tick is left out. -/
theorem mem_ticks_of_lt {a : Action} {rest : List (Clocks × Action)} (hperiod : setup.resync = some (.every period))
    (horder : InOrder (before ++ (start, .run) :: mid))
    (hpunctual :
      punctual period setup (fresh capacity) ((before ++ (start, .run) :: mid) ++ (clocks, a) :: rest) = true)
    (h : run setup (fresh capacity) (before ++ (start, .run) :: mid) = some (q, log))
    (hstop : ∀ s ∈ before ++ mid, s.2 ≠ .stop) {i : Nat} (hi : tickAt period start.now i < clocks.now) :
    tickAt period start.now i ∈ (ticks mid).map Prod.fst := by
  obtain ⟨hfirst, hsecond⟩ := punctual_of_append hpunctual
  have hbeat := onBeat_of_started hperiod horder hfirst h
  have hintime := (punctual_cons_iff.mp (hsecond h)).1
  rcases hbeat.stage with hended | ⟨left, hticking⟩
  · have hnone : ∀ s ∈ before ++ (start, .run) :: mid, s.2 ≠ .stop := by
      obtain ⟨hbefore, hmid⟩ := List.forall_mem_append.mp hstop
      exact List.forall_mem_append.mpr ⟨hbefore, List.forall_mem_cons.mpr ⟨nofun, hmid⟩⟩
    have hrequested := stopRequested_of_ended h hended
    rw [stopRequested_of_run hnone h] at hrequested
    cases hrequested
  · -- the next tick is not over, so this one is among those that are
    rw [hticking] at hintime
    have hlt : i < (ticks mid).length := by
      by_contra hge
      have hmono := tickAt_mono period start.now (Nat.not_lt.mp hge)
      exact Nat.not_lt.mpr (Nat.le_trans (Resync.le_of_inTime hintime) hmono) hi
    rw [hbeat.rhythm]
    exact List.mem_map_of_mem (List.mem_range.mpr hlt)

end

/-- **The resync repairs what was missed**, as long as it is always in time. It ticks when its
period has passed since the pool began to run, and then always after a period; before the signal to
stop it leaves out no tick, and when it has ended there is none. What it takes from the source at a
tick it puts in at that moment, key by key in the order of the source and on the pool's own account,
and it puts in nothing else. When the pool has stopped, each of these keys has been delivered, has
begun and was recorded since. What the clauses have in common is `onBeat_of_started`. The last of
them is `served_of_putIn`: what is due to a key from the moment at which it was put in has been done
when the pool has stopped. -/
theorem resync_repairs {capacity : Nat} {before after : List (Clocks × Action)} {start : Clocks}
    (hperiod : setup.resync = some (.every period)) (hw : 1 ≤ setup.workers)
    (horder : InOrder (before ++ (start, .run) :: after))
    (hpunctual : punctual period setup (fresh capacity) (before ++ (start, .run) :: after) = true)
    (h : run setup (fresh capacity) (before ++ (start, .run) :: after) = some (p, log)) :
    Resynced setup capacity period before start after p log := by
  have hbeat := onBeat_of_started hperiod horder hpunctual h
  have hsplit : ∀ {mid clocks a rest}, after = mid ++ (clocks, a) :: rest →
      ∃ q q' notices earlier later, run setup (fresh capacity) (before ++ (start, .run) :: mid) = some (q, earlier) ∧
        q.act setup clocks a = some (q', notices) ∧ run setup q' rest = some (p, later) ∧
        log = earlier ++ (notices.map (clocks.now, ·) ++ later) := by
    rintro mid clocks a rest rfl
    rw [← List.cons_append, ← List.append_assoc] at h
    exact exists_act_of_run_append h
  obtain ⟨t, hinserted, hlate⟩ := hbeat.inserted
  exact {
    unstarted := by
      obtain ⟨u, _, _, hbefore, hi, -⟩ := exists_start_of_run h
      exact (silent_of_idle hbefore hi).2
    rhythm := hbeat.rhythm
    complete := by
      rintro mid clocks a rest rfl hstop i hi
      obtain ⟨q, -, -, earlier, -, hfirst, -⟩ := hsplit rfl
      rw [← List.cons_append, ← List.append_assoc] at horder hpunctual
      exact mem_ticks_of_lt hperiod horder.of_append.1 hpunctual hfirst hstop hi
    inserted := ⟨t, hinserted, fun hne => (hlate hne).2⟩
    accepted := by
      intro mid clocks key rest heq
      obtain ⟨q, q', notices, earlier, later, hfirst, hact, hrest, -⟩ := hsplit heq
      obtain ⟨rfl, hput⟩ := put_of_act (sound_of_run hfirst) (windingUp_of_run hfirst) hact
      exact ⟨q, q', earlier, later, hfirst, hact, hrest, hput⟩
    silent := by
      intro mid clocks rest heq
      obtain ⟨q, q', notices, earlier, later, hfirst, hact, hrest, -⟩ := hsplit heq
      obtain ⟨u, _, _, -, -, hmid⟩ := exists_start_of_run hfirst
      have hi := phase_ne_idle_of_act (phase_ne_idle_of_run (start_phase_ne_idle u) hmid) hact
      cases step_of_act hact with
      | resyncEnded => exact silent_of_ended hi rfl hrest
    served := by
      intro hs
      have hnone := left_of_stopped (sound_of_run h) (windingUp_of_run h) hs
      refine ⟨hnone, fun tick htick key hkey => ?_⟩
      -- the key was put in at the moment of the tick
      have hmem : (tick.1, key) ∈ puts after := by
        rw [hnone, List.map_nil, List.append_nil] at hinserted
        rw [← hinserted]
        exact mem_listed.mpr ⟨tick.2, htick, hkey⟩
      obtain ⟨mid, clocks, rest, rfl, hnow⟩ := exists_step_of_mem_puts hmem
      obtain ⟨q, q', notices, earlier, later, hfirst, hact, hrest, hlog⟩ := hsplit rfl
      obtain ⟨-, hput⟩ := put_of_act (sound_of_run hfirst) (windingUp_of_run hfirst) hact
      refine ⟨earlier ++ notices.map (clocks.now, ·), later, by rw [hlog, List.append_assoc], ?_, fun e he => ?_⟩
      · exact served_of_putIn (sound_of_act (sound_of_run hfirst) hact) hput hw hrest hs
      · obtain ⟨s, hs, he⟩ := exists_step_of_mem_log hrest he
        rw [← List.cons_append, ← List.append_assoc] at horder
        rw [he, ← hnow]
        exact (List.pairwise_cons.mp horder.of_append.2.1).1 _ (List.mem_map_of_mem hs) }

/-- A pool with one worker whose resync ticks each tenth of a second. -/
def eachTenth : Setup := ⟨1, 0, .fixed Span.zero, some (.every (Span.ofMillis 100))⟩

/-- A key is triggered and handled. The first tick finds it there, and another key resting; between
the keys that it puts in the handler ends. The second tick comes when both have been handled,
together with the signal to stop. -/
def twoTicks : List (Clocks × Action) :=
  allAt ⟨0, .epoch⟩ [.trigger "a" .manual, .work 0, .work 0] ++
    allAt ⟨10 ^ 8, .epoch⟩ [.tick ["a", "b", "a"], .put "a", .finish 0 .success, .put "b", .work 0, .put "a"] ++
    allAt ⟨15 * 10 ^ 7, .epoch⟩
      [.work 0, .work 0, .work 0, .finish 0 .success, .work 0, .work 0, .work 0, .work 0, .finish 0 .success, .work 0,
        .work 0] ++
    allAt ⟨2 * 10 ^ 8, .epoch⟩
      [.tick ["b"], .stop, .supervise, .put "b", .endResync, .supervise, .work 0, .work 0, .finish 0 .success, .work 0,
        .work 0, .work 0, .supervise, .supervise]

/-- The key that was handled when the tick came is handled again. -/
theorem resync_repairs_twice :
    ∃ p log, run eachTenth (fresh 10) ([] ++ (⟨0, .epoch⟩, .run) :: twoTicks) = some (p, log) ∧ p.phase = .stopped ∧
      InOrder ([] ++ (⟨0, .epoch⟩, .run) :: twoTicks) ∧
      punctual (Span.ofMillis 100) eachTenth (fresh 10) ([] ++ (⟨0, .epoch⟩, .run) :: twoTicks) = true ∧
      (2 * 10 ^ 8, "b") ∈ puts twoTicks ∧
      ∃ earlier later, log = earlier ++ later ∧ Served "a" later ∧ ∀ e ∈ later, 10 ^ 8 ≤ e.1 := by
  generalize hr : run eachTenth (fresh 10) ([] ++ (⟨0, .epoch⟩, .run) :: twoTicks) = r
  have hphase : r.map (·.1.phase) = some .stopped := by
    rw [← hr]
    decide +kernel
  have horder : InOrder ([] ++ (⟨0, .epoch⟩, .run) :: twoTicks) := by
    unfold InOrder
    decide
  have hpunctual :
      punctual (Span.ofMillis 100) eachTenth (fresh 10) ([] ++ (⟨0, .epoch⟩, .run) :: twoTicks) = true := by
    decide +kernel
  obtain ⟨⟨p, log⟩, rfl, hstopped⟩ := Option.map_eq_some_iff.mp hphase
  obtain ⟨-, hserved⟩ := (resync_repairs rfl (by decide) horder hpunctual hr).served hstopped
  have htick : (10 ^ 8, ["a", "b", "a"]) ∈ ticks twoTicks := by decide
  obtain ⟨earlier, later, hlog, hserved, hlater⟩ := hserved _ htick "a" List.mem_cons_self
  exact ⟨p, log, rfl, hstopped, horder, hpunctual, by decide, earlier, later, hlog, hserved, hlater⟩

end ControlLoop.Pool
