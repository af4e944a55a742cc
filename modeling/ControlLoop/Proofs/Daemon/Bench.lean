import ControlLoop.Proofs.Bench.Basic
import ControlLoop.Proofs.Daemon.Converge

/-!
# The daemon on the bench

On the bench the tasks of a daemon take turns in one of the many orders in which they might:
whatever the bench does, a daemon at work may do. A line is applied and its key triggered, with
turns of the tasks between the two; a handler looks at the object as soon as it runs, and what it
concludes then is what it would conclude when it ends. So what holds of a daemon at work holds of
the daemon as it is run (`run_converges`).

`Shown` is what carries this over: the state of the bench is one that a daemon at work can reach,
with the same pool, the same objects and the same log. There is a lemma for each thing that the
bench does, and every one of them is a move of the daemon, or two: when a handler begins the pool
takes a step, and then the handler looks.
-/

namespace ControlLoop

namespace Pool

variable {setup : Setup} {clocks : Clocks} {p q : Pool} {a : Action} {notices : List Notice} {i j : Nat} {b : Attempt}

/-- A worker that is found handling after another one has moved has been handling before. -/
theorem handling_of_set {new : Stage} (hw : i < p.workers.length) (hnew : ∀ b, new ≠ .handling b)
    (h : (p.workers.set i new)[j]? = some (.handling b)) : j ≠ i ∧ p.workers[j]? = some (.handling b) := by
  have hne : j ≠ i := by
    rintro rfl
    rw [List.getElem?_set_self hw] at h
    exact hnew b (Option.some.inj h)
  rw [List.getElem?_set_ne hne.symm] at h
  exact ⟨hne, h⟩

/-- A handler that runs has been running, and does not end in this step, or begins in it. -/
theorem handling_before (hact : p.act setup clocks a = some (q, notices)) (hw : q.workers[j]? = some (.handling b)) :
    (p.workers[j]? = some (.handling b) ∧ ∀ result, a ≠ .finish j result) ∨
      (a = .work j ∧ ∃ kind, p.workers[j]? = some (.holding b.key kind)) := by
  have hset : ∀ {i old new}, p.workers[i]? = some old → (∀ b, new ≠ .handling b) →
      (p.workers.set i new)[j]? = some (.handling b) → j ≠ i ∧ p.workers[j]? = some (.handling b) :=
    fun hi => handling_of_set (List.getElem?_eq_some_iff.mp hi).1
  cases step_of_act hact with
  | took hi | left hi | released hi | dropped hi | kept hi | retriedAtOnce hi | retryCovered hi | retryDelayed hi
  | retryRefused hi | recorded hi =>
    obtain ⟨-, hold⟩ := hset hi (by simp) hw
    exact .inl ⟨hold, by simp⟩
  | succeeded hi | failed hi =>
    obtain ⟨hne, hold⟩ := hset hi (by simp) hw
    refine .inl ⟨hold, fun result heq => ?_⟩
    cases heq
    exact hne rfl
  | @began i key kind hi =>
    by_cases hij : j = i
    · subst hij
      have hself := getElem?_moveTo hi (.handling ⟨key, kind, p.retryCount key, clocks.wall, clocks.now⟩)
      cases hw.symm.trans hself
      exact .inr ⟨rfl, kind, hi⟩
    · have hold := (List.getElem?_set_ne (Ne.symm hij)).symm.trans hw
      exact .inl ⟨hold, by simp⟩
  | started =>
    cases (List.mem_replicate.mp (List.mem_of_getElem? hw)).2
  | _ => exact .inl ⟨hw, by simp⟩

/-- A worker that holds a key begins to handle it. -/
theorem begin_of_act {key : Key} {kind : Trigger} (hw : p.workers[i]? = some (.holding key kind))
    (hact : p.act setup clocks (.work i) = some (q, notices)) :
    notices = [.began key] ∧ ∃ b : Attempt, b.key = key ∧ q = p.moveTo i (.handling b) := by
  simp only [act, work, hw] at hact
  cases hact
  exact ⟨rfl, _, rfl, rfl⟩

/-- Only a worker that holds a key begins to handle it. -/
theorem holding_of_began {key : Key} (hact : p.act setup clocks a = some (q, notices)) (hn : .began key ∈ notices) :
    ∃ i kind, a = .work i ∧ p.workers[i]? = some (.holding key kind) := by
  cases step_of_act hact with
  | @began i k kind hw =>
    obtain rfl : key = k := by simpa using hn
    exact ⟨i, kind, rfl, hw⟩
  | fired => split at hn <;> simp at hn
  | _ => simp at hn

end Pool

/-! ## Plans -/

namespace Flight

variable {ω : Type} {f : Flight ω} {handler : Handler ω} {i j : Nat} {key : Key}

/-- Striking out one plan leaves the others. -/
theorem lookup_filter_ne (plans : List (Nat × Plan)) (hij : j ≠ i) :
    (plans.filter (·.1 ≠ i)).lookup j = plans.lookup j := by
  induction plans with
  | nil => rfl
  | cons entry plans ih =>
    obtain ⟨k, plan⟩ := entry
    by_cases hk : k = i
    · subst hk
      rw [List.filter_cons_of_neg (by simp), List.lookup_cons, beq_false_of_ne hij]
      exact ih
    · rw [List.filter_cons_of_pos (by simpa using hk), List.lookup_cons, List.lookup_cons, ih]

/-- When the handler is called for a worker, what is left to do for the others stays as it is. -/
theorem plan_call (f : Flight ω) (handler : Handler ω) (i j : Nat) (key : Key) :
    (f.call handler i key).plan j = if j = i then (handler f.world key).1 else f.plan j := by
  show (List.lookup j ((i, (handler f.world key).1) :: f.plans.filter (·.1 ≠ i))).getD {} = _
  split
  · next hij =>
    subst hij
    rw [List.lookup_cons_self]
    rfl
  · next hij =>
    rw [List.lookup_cons, beq_false_of_ne hij, plan, ← lookup_filter_ne f.plans hij]

/-- Without a notice that the handler begins it is not called. -/
theorem callIfBegun_of_none {notices : List Notice} (h : ∀ key, .began key ∉ notices) :
    f.callIfBegun handler i notices = f := by
  induction notices generalizing f with
  | nil => rfl
  | cons n notices ih =>
    have hrest := ih (f := f) fun key hmem => h key (List.mem_cons_of_mem n hmem)
    cases n with
    | began key => exact absurd List.mem_cons_self (h key)
    | _ => exact hrest

end Flight

namespace Daemon

namespace Live

open TenantStore

variable {setup : Pool.Setup} {clocks : Clocks} {l m : Live} {log seen : List Seen} {s t : PoolBench.State TenantStore}
  {capacity : Nat} {reading : Bool} {due : Option Key} {lines : List String} {a : Pool.Action} {now : Moment}
  {notices : List Notice}

/-! ## What the bench shows of a daemon -/

/-- The bench shows a daemon at work: pool, objects and log are the same on both sides, and what a
handler on the bench is going to say is what the daemon's handler would conclude from what it has
found. -/
structure Shows (setup : Pool.Setup) (s : PoolBench.State TenantStore) (l : Live) (log : List Seen) : Prop where
  setup : s.setup = setup
  handler : s.handler = Daemon.handler
  pool : s.pool = l.pool
  store : s.flight.world = l.store
  log : s.flight.log.reverse = noticesOf log
  /-- a handler that runs has looked, and is going to conclude from what it has found -/
  plans : ∀ i a, l.pool.workers[i]? = some (.handling a) → ∃ found, l.found i = some found ∧
    s.flight.plan i = { result := .ofExcept (l.store.conclude a.key found) }

/-- The bench shows where the moves of a daemon may lead that has read some lines. This is the
invariant of the bench: every task keeps it (`Shown.task`), and what is asked from outside changes
only `reading`, `due` and `lines`. -/
def Shown (setup : Pool.Setup) (capacity : Nat) (reading : Bool) (due : Option Key) (lines : List String)
    (s : PoolBench.State TenantStore) : Prop :=
  ∃ moves l log, run setup (fresh capacity) moves = some (l, log) ∧ Shows setup s l log ∧ l.reading = reading ∧
    l.due = due ∧ linesOf log = lines

theorem run_concat {moves : List (Clocks × Move)} {move : Move} {l₀ : Live} (h : run setup l₀ moves = some (l, log))
    (hact : l.act setup clocks move = some (m, seen)) :
    run setup l₀ (moves ++ [(clocks, move)]) = some (m, log ++ seen) := by
  refine takeSteps_append_eq_some.mpr ⟨l, log, seen, h, ?_, rfl⟩
  exact takeSteps_cons_eq_some.mpr ⟨m, seen, [], hact, rfl, (List.append_nil _).symm⟩

/-- What the bench does with a step of the pool: it takes down the notices. -/
theorem act?_eq_some (h : (PoolBench.rig _).act? now s a = some (t, notices)) :
    ∃ pool, s.pool.act s.setup (s.flight.clocks now) a = some (pool, notices) ∧
      t = { s with pool, flight := s.flight.note now notices } := by
  obtain ⟨⟨pool, notices⟩, hact, heq⟩ := Option.map_eq_some_iff.mp h
  cases heq
  exact ⟨pool, hact, rfl⟩

/-- The pool has taken a step in which no handler begins. -/
theorem Shows.step (h : Shows setup s l log) {pool : Pool} (hp : m.pool = pool) (hs : m.store = l.store)
    (hw : ∀ (i : Nat) (b : Attempt), pool.workers[i]? = some (.handling b) →
      l.pool.workers[i]? = some (.handling b) ∧ m.found i = l.found i) :
    Shows setup { s with pool, flight := s.flight.note now notices } m (log ++ notices.map (.notice now)) where
  setup := h.setup
  handler := h.handler
  pool := hp.symm
  store := h.store.trans hs.symm
  log := by
    rw [noticesOf_append, noticesOf_notices, ← h.log]
    simp [Flight.note]
  plans i b hb := by
    rw [hp] at hb
    obtain ⟨hold, hfound⟩ := hw i b hb
    rw [hfound, hs]
    exact h.plans i b hold

/-! ## The tasks

There is one lemma for each kind of step, and `Shown.task` puts them together. A step of the pool is
one move of the daemon, but when a handler begins, its look at the object is a second one. When a
handler ends on the bench it does so with the result in its plan, and `Shows.plans` says that this
is what the daemon's handler concludes. -/

theorem sound_of_run {moves : List (Clocks × Move)} (h : run setup (fresh capacity) moves = some (l, log)) :
    l.Sound setup :=
  (reached_of_run h).sound

/-- The pool takes a step on account of a move, and no handler begins or ends. -/
theorem Shown.act {reading' : Bool} {due' : Option Key} (h : Shown setup capacity reading due lines s) (move : Move)
    (hmove : ∀ {clocks : Clocks} {l : Live} {pool : Pool} {notices : List Notice}, l.reading = reading → l.due = due →
      l.pool.act setup clocks a = some (pool, notices) → l.act setup clocks move =
        some ({ l with pool, reading := reading', due := due' }, notices.map (.notice clocks.now)))
    (hb : ∀ i key kind, a = .work i → s.pool.workers[i]? ≠ some (.holding key kind))
    (hact : (PoolBench.rig _).act? now s a = some (t, notices)) : Shown setup capacity reading' due' lines t := by
  obtain ⟨moves, l, log, hrun, hs, hreading, hdue, hlines⟩ := h
  obtain ⟨pool, hpool, rfl⟩ := act?_eq_some hact
  rw [hs.setup, hs.pool] at hpool
  refine ⟨_, _, _, run_concat hrun (hmove hreading hdue hpool), hs.step rfl rfl fun i b hi => ⟨?_, rfl⟩, rfl, rfl, ?_⟩
  · rcases Pool.handling_before hpool hi with ⟨hold, -⟩ | ⟨rfl, kind, hold⟩
    · exact hold
    · rw [← hs.pool] at hold
      exact absurd hold (hb i _ _ rfl)
  · rw [linesOf_append, linesOf_notices, List.append_nil]
    exact hlines

theorem act_own {pool : Pool} (ha : a.isOwn = true) (hact : l.pool.act setup clocks a = some (pool, notices)) :
    l.act setup clocks (.pool a) = some ({ l with pool }, notices.map (.notice clocks.now)) := by
  rw [act, if_pos ha, byPool, hact]
  rfl

/-- The pool takes a step by itself, and no handler begins. -/
theorem Shown.own (h : Shown setup capacity reading due lines s) (ha : a.isOwn = true)
    (hb : ∀ i key kind, a = .work i → s.pool.workers[i]? ≠ some (.holding key kind))
    (hact : (PoolBench.rig _).act? now s a = some (t, notices)) : Shown setup capacity reading due lines t := by
  refine h.act (.pool a) (fun hreading hdue hpool => ?_) hb hact
  subst hreading hdue
  exact act_own ha hpool

/-- A worker begins to run the handler, which looks at the object at once. -/
theorem Shown.begin {i : Nat} {key : Key} {kind : Trigger} (h : Shown setup capacity reading due lines s)
    (hw : s.pool.workers[i]? = some (.holding key kind))
    (hact : (PoolBench.rig _).act? now s (.work i) = some (t, notices)) :
    Shown setup capacity reading due lines { t with flight := t.flight.callIfBegun t.handler i notices } := by
  obtain ⟨moves, l, log, hrun, hs, hreading, hdue, hlines⟩ := h
  obtain ⟨pool, hpool, rfl⟩ := act?_eq_some hact
  rw [hs.setup] at hpool
  rw [hs.pool] at hpool hw
  have hown := act_own (a := .work i) rfl hpool
  have hfound : l.found i = none := by
    by_contra hne
    obtain ⟨b, hb⟩ := (sound_of_run hrun).sighted.looked i hne
    cases hw.symm.trans hb
  obtain ⟨rfl, b, rfl, rfl⟩ := Pool.begin_of_act hw hpool
  have hw' := Pool.getElem?_moveTo hw (.handling b)
  have hlook : ({ l with pool := l.pool.moveTo i (.handling b) } : Live).act setup (s.flight.clocks now) (.look i) =
      some ({ l with
        pool := l.pool.moveTo i (.handling b),
        found := Function.update l.found i (some (l.store.get? b.key)) }, []) := by
    simp only [Live.act, hw', hfound]
  -- two moves of the daemon: the worker begins, and its handler looks
  refine ⟨_, _, _, run_concat (run_concat hrun hown) hlook, ?_, hreading, hdue, ?_⟩
  · refine ⟨hs.setup, hs.handler, rfl, ?_, ?_, fun j c hc => ?_⟩
    · show (s.handler s.flight.world b.key).2 = l.store
      rw [hs.handler, ← hs.store]
      rfl
    · rw [List.append_nil, noticesOf_append, noticesOf_notices, ← hs.log]
      simp [Flight.callIfBegun, Flight.call, Flight.setPlan, Flight.note, Flight.clocks]
    · show ∃ found, Function.update l.found i (some (l.store.get? b.key)) j = some found ∧
        (Flight.call (s.flight.note now [.began b.key]) s.handler i b.key).plan j = _
      rw [Flight.plan_call]
      -- the handler that begins has found what is there now; the others have found what they had found
      by_cases hij : j = i
      · subst hij
        cases hc.symm.trans hw'
        refine ⟨l.store.get? b.key, Function.update_self .., ?_⟩
        rw [if_pos rfl, hs.handler, Daemon.handler, reconcile_eq_conclude, ← hs.store]
        rfl
      · rw [if_neg hij, Function.update_of_ne hij]
        refine hs.plans j c ?_
        rw [← hc]
        exact (List.getElem?_set_ne (Ne.symm hij)).symm
  · rw [List.append_nil, linesOf_append]
    exact (List.append_nil _).trans hlines

/-- A handler ends with what it has concluded. -/
theorem Shown.finish {i : Nat} {b : Attempt} (h : Shown setup capacity reading due lines s)
    (hw : s.pool.workers[i]? = some (.handling b)) :
    Shown setup capacity reading due lines ((PoolBench.rig _).handle now i s).state := by
  obtain ⟨moves, l, log, hrun, hs, hreading, hdue, hlines⟩ := h
  rw [hs.pool] at hw
  obtain ⟨found, hfound, hplan⟩ := hs.plans i b hw
  have hmove : s.flight.move now i = (.finish (.ofExcept (l.store.conclude b.key found)), s.flight) := by
    simp only [Flight.move, hplan]
  have hhandle : (PoolBench.rig _).handle now i s =
      (PoolBench.rig _).actThen now s (.finish i (.ofExcept (l.store.conclude b.key found))) .goOn := by
    simp only [Rig.handle, hmove]
    rfl
  rw [hhandle, Rig.actThen]
  cases hact : (PoolBench.rig _).act? now s (.finish i (.ofExcept (l.store.conclude b.key found))) with
  | none => exact ⟨moves, l, log, hrun, hs, hreading, hdue, hlines⟩
  | some change =>
    obtain ⟨t, notices⟩ := change
    obtain ⟨pool, hpool, rfl⟩ := act?_eq_some hact
    rw [hs.setup, hs.pool] at hpool
    have hfinish : l.act setup (s.flight.clocks now) (.finish i) =
        some ({ l with pool, found := Function.update l.found i none }, notices.map (.notice now)) := by
      simp only [Live.act, hw, hfound, byPool, hpool]
      rfl
    refine ⟨_, _, _, run_concat hrun hfinish, hs.step rfl rfl fun j c hc => ?_, hreading, hdue, ?_⟩
    · rcases Pool.handling_before hpool hc with ⟨hold, hne⟩ | ⟨heq, -⟩
      · have hji : j ≠ i := by
          rintro rfl
          exact hne _ rfl
        exact ⟨hold, Function.update_of_ne hji _ _⟩
      · cases heq
    · rw [linesOf_append, linesOf_notices, List.append_nil]
      exact hlines

/-- A task whose turn it is has the pool take a step, if that is possible. -/
theorem Shown.actThen {next : Next} (h : Shown setup capacity reading due lines s) (ha : a.isOwn = true)
    (hb : ∀ i, a ≠ .work i) :
    Shown setup capacity reading due lines ((PoolBench.rig _).actThen now s a next).state := by
  rw [Rig.actThen]
  split
  · next t notices hact => exact h.own ha (fun i _ _ heq => absurd heq (hb i)) hact
  · exact h

/-- A worker takes its turn: it begins to handle a key, or does something else. -/
theorem Shown.work {i : Nat} (h : Shown setup capacity reading due lines s) :
    Shown setup capacity reading due lines ((PoolBench.rig _).work now i s).state := by
  rw [Rig.work]
  split
  · exact h
  · next t notices hact =>
    by_cases hw : ∃ key kind, s.pool.workers[i]? = some (.holding key kind)
    · obtain ⟨key, kind, hw⟩ := hw
      exact h.begin hw hact
    · have hb : ∀ j key kind, Pool.Action.work i = .work j → s.pool.workers[j]? ≠ some (.holding key kind) := by
        rintro _ key kind ⟨⟩ hj
        exact hw ⟨key, kind, hj⟩
      obtain ⟨pool, hpool, -⟩ := act?_eq_some hact
      rw [Flight.callIfBegun_of_none]
      · exact h.own rfl hb hact
      · intro key hn
        obtain ⟨_, kind, ⟨⟩, hj⟩ := Pool.holding_of_began hpool hn
        exact hw ⟨key, kind, hj⟩

/-- Whatever task takes a turn. -/
theorem Shown.task (task : PoolBench.Task) (h : Shown setup capacity reading due lines s) :
    Shown setup capacity reading due lines (s.step now task).state := by
  cases task with
  | worker i =>
    rw [PoolBench.State.step]
    split
    · next b hw => exact h.finish hw
    · exact h.work
  | timer key deadline =>
    rw [PoolBench.State.step]
    split
    · exact h
    · exact h.actThen rfl (by simp)
  | resync =>
    rw [PoolBench.State.step, PoolBench.State.resync]
    split
    · next t notices hact => exact h.own rfl (by simp) hact
    · split
      · exact h.actThen rfl (by simp)
      · split
        · exact h.actThen rfl (by simp)
        · exact h
      · exact h
      · exact h
  | supervisor => exact h.actThen rfl (by simp)

/-! ## From outside

Lines and the signal to stop reach the bench between the turns of its tasks. After each of them the
bench lets all tasks take turns until they rest, and `Shown.change` covers that by `Shown.task`. -/

variable {d : Daemon} {key : Key} {line : String}

theorem Shown.change (h : Shown setup capacity reading due lines s) (d : Daemon) (tasks : List PoolBench.Task) :
    Shown setup capacity reading due lines (Bench.change d s tasks).state :=
  Bench.change_keeps (fun _ task _ hs => hs.task task) d tasks h

/-- A step that the pool takes by itself may be asked for from outside. -/
theorem Shown.perform (h : Shown setup capacity reading due lines d.state) (ha : a.isOwn = true)
    (hb : ∀ i, a ≠ .work i) (tasks : List PoolBench.Task) :
    Shown setup capacity reading due lines ((PoolBench.rig _).perform d a tasks).2.state := by
  rw [Rig.perform]
  split
  · next t notices hact => exact (h.own ha (fun i _ _ heq => absurd heq (hb i)) hact).change d _
  · exact h.change d _

/-- A line is passed over. -/
theorem Shown.passed (h : Shown setup capacity true none lines s) (ht : s.flight.world.take? line = none) :
    Shown setup capacity true none (lines ++ [line]) s := by
  obtain ⟨moves, l, log, hrun, hs, hreading, hdue, rfl⟩ := h
  rw [hs.store] at ht
  have hmove : l.act setup ⟨0, .epoch⟩ (.take line) = some (l, [.line line]) := by
    simp only [Live.act, hreading, hdue, ht, and_self, if_true]
  refine ⟨_, l, _, run_concat hrun hmove, ?_, hreading, hdue, by rw [linesOf_append, linesOf_line]⟩
  refine ⟨hs.setup, hs.handler, hs.pool, hs.store, ?_, hs.plans⟩
  rw [noticesOf_append, noticesOf_line, List.append_nil]
  exact hs.log

/-- A line is applied. -/
theorem Shown.took {store : TenantStore} (h : Shown setup capacity true none lines s)
    (ht : s.flight.world.take? line = some (key, store)) :
    Shown setup capacity true (some key) (lines ++ [line]) { s with flight := { s.flight with world := store } } := by
  obtain ⟨moves, l, log, hrun, hs, hreading, hdue, rfl⟩ := h
  rw [hs.store] at ht
  have hmove : l.act setup ⟨0, .epoch⟩ (.take line) = some ({ l with store, due := some key }, [.line line]) := by
    simp only [Live.act, hreading, hdue, ht, and_self, if_true]
  refine ⟨_, _, _, run_concat hrun hmove, ?_, hreading, rfl, by rw [linesOf_append, linesOf_line]⟩
  refine ⟨hs.setup, hs.handler, hs.pool, rfl, ?_, fun i b hb => ?_⟩
  · rw [noticesOf_append, noticesOf_line, List.append_nil]
    exact hs.log
  · obtain ⟨found, hfound, hplan⟩ := hs.plans i b hb
    have hready := (sound_of_run hrun).ready
    exact ⟨found, hfound, (hready.conclude_eq (hready.take? ht) b.key found) ▸ hplan⟩

theorem perform_eq {tasks : List PoolBench.Task} (h : (PoolBench.rig _).act? d.now d.state a = some (t, notices)) :
    ((PoolBench.rig _).perform d a tasks).2 = Bench.change d t (tasks ++ PoolBench.started notices) := by
  rw [Rig.perform, h]

/-- The key that a line has named is triggered. -/
theorem Shown.told (h : Shown setup capacity true (some key) lines d.state) :
    Shown setup capacity true none lines (PoolBench.trigger d key .manual).2.state := by
  obtain ⟨t, notices, hact⟩ : ∃ t notices,
      (PoolBench.rig _).act? d.now d.state (.trigger key .manual) = some (t, notices) :=
    ⟨_, _, rfl⟩
  show Shown _ _ _ _ _ ((PoolBench.rig _).perform d (.trigger key .manual) []).2.state
  rw [perform_eq hact]
  refine (h.act .tell ?_ (by simp) hact).change d _
  rintro clocks ⟨p, store, reading, due, found⟩ pool notices ⟨⟩ ⟨⟩ hpool
  simp only [Live.act, byPool, hpool]
  rfl

/-- The signal to stop is given. -/
theorem Shown.stopped (h : Shown setup capacity true none lines d.state) :
    Shown setup capacity false none lines (PoolBench.stop d).state := by
  obtain ⟨t, notices, hact⟩ : ∃ t notices, (PoolBench.rig _).act? d.now d.state .stop = some (t, notices) :=
    ⟨_, _, rfl⟩
  rw [PoolBench.stop, Rig.stop, perform_eq hact]
  refine (h.act .stop ?_ (by simp) hact).change d _
  rintro clocks ⟨p, store, reading, due, found⟩ pool notices ⟨⟩ ⟨⟩ hpool
  simp only [Live.act, byPool, hpool]
  rfl

/-! ## The whole run -/

/-- Without workers no pool is made. -/
theorem workers_of_setup? {b : Blueprint} (h : b.setup? = .ok setup) : 1 ≤ setup.workers := by
  obtain ⟨⟨⟩, hvalid, h⟩ := bind_eq_ok.mp h
  cases h
  obtain ⟨hworkers, -⟩ := Config.validate_eq_ok_iff.mp hvalid
  exact Nat.one_le_iff_ne_zero.mpr hworkers

/-- On the bench the ticks of the resync keep to the pace of the bench. -/
theorem shown_of_create (setup : Pool.Setup) (capacity : Nat) (wall : Timestamp) :
    Shown { setup with resync := setup.resync.map PoolBench.paced } capacity true none []
      (create setup capacity wall).state := by
  refine ⟨[], fresh capacity, [], rfl, ⟨rfl, rfl, rfl, rfl, rfl, fun i b hb => ?_⟩, rfl, rfl, rfl⟩
  cases hb

/-- A daemon that has been started is shown by the bench. -/
theorem shown_of_start {c : DaemonConfig} {wall : Timestamp} (h : start c wall = .ok d) :
    ∃ setup : Pool.Setup, 1 ≤ setup.workers ∧ Shown setup c.config.ledgerCapacity true none [] d.state := by
  rw [start] at h
  cases hsetup : (blueprint c).setup? with
  | error e =>
    rw [hsetup] at h
    cases h
  | ok setup =>
    simp only [hsetup, Except.mapError] at h
    obtain ⟨_, heq, h⟩ := bind_eq_ok.mp h
    cases heq
    split at h
    · cases h
    · cases h
      have hworkers : 1 ≤ setup.workers := workers_of_setup? hsetup
      refine ⟨{ setup with resync := setup.resync.map PoolBench.paced }, hworkers, ?_⟩
      exact (shown_of_create setup c.config.ledgerCapacity wall).perform (a := .run) rfl (by simp) _

/-- A line is applied, and then its key is triggered. -/
theorem Shown.takeLine (h : Shown setup capacity true none lines d.state) (line : String) :
    Shown setup capacity true none (lines ++ [line]) (d.takeLine line).state := by
  rw [takeLine_eq]
  cases ht : d.state.flight.world.take? line with
  | none => exact h.passed ht
  | some change =>
    obtain ⟨key, store⟩ := change
    exact ((h.took ht).change d _).told

/-- All lines are taken in, one after the other, each by `Shown.takeLine`. -/
theorem Shown.takeLines (h : Shown setup capacity true none lines d.state) (more : List String) :
    Shown setup capacity true none (lines ++ more) (more.foldl Daemon.takeLine d).state := by
  induction more generalizing d lines with
  | nil =>
    rw [List.append_nil]
    exact h
  | cons line more ih =>
    have hmore := ih (h.takeLine line)
    rwa [List.append_assoc, List.singleton_append] at hmore

end Live

open Live TenantStore

/-- **The daemon, as it is run, converges**: if it has drained when it has taken in its lines, its
objects are those that the lines leave, the last record of each key that a line has named agrees
with the object under the key, and its ledger holds the newest of the records. -/
theorem run_converges {c : DaemonConfig} {wall : Timestamp} {d e : Daemon} (hstart : start c wall = .ok d)
    (lines : List String)
    (he : e = (PoolBench.awaitEnd (PoolBench.stop (lines.foldl takeLine d)) Span.longest).2)
    (hs : e.state.pool.phase = .stopped) :
    e.state.flight.world = (takeAll lines).2 ∧
      (∀ key ∈ (takeAll lines).1, ∃ r, (Pool.recordsOf key e.state.flight.log.reverse).getLast? = some r ∧
        r.outcome = e.state.flight.world.verdict key) ∧
      e.state.pool.ledger =
        (Pool.records e.state.flight.log.reverse).foldl Ledger.record (Ledger.empty c.config.ledgerCapacity) := by
  obtain ⟨setup, hw, hshown⟩ := shown_of_start hstart
  have hend : Shown setup c.config.ledgerCapacity false none lines e.state := by
    rw [he]
    exact Bench.await_keeps (fun _ task _ hs => hs.task task) _ _ (hshown.takeLines lines).stopped
  obtain ⟨moves, l, log, hrun, hshows, -, -, rfl⟩ := hend
  have hl := reached_of_run hrun
  obtain ⟨steps, hpool⟩ := hl.run
  rw [hshows.pool] at hs ⊢
  rw [hshows.store, hshows.log]
  exact ⟨hl.converging.store, fun key hkey => hl.last_record hw hs hkey, Pool.ledger_of_run hpool⟩

end Daemon

end ControlLoop
