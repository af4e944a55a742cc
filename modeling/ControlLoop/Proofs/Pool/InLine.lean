import ControlLoop.Proofs.Pool.Accounts
import ControlLoop.Proofs.Pool.RetryLaw

/-!
# One worker that forgives nothing

If a pool has a single worker, forgives no failure and is given no key twice, then no key is put in
again: none is ever marked, delayed or tried once more. So the queue is nothing but a line. At every
moment the keys that were accepted are those that have been recorded, then the one in hand, then
those that wait, in the order in which they came and each with what set it off (`InLine.order`).
Every accepted key has been recorded, in this order, when the pool has stopped.

What carries the induction is that each key comes once: a key that is put in is at rest
(`InLine.resting`), so it comes to the end of the line and is never marked. That a failure is final
at its first attempt (`Stage.IsFinal`) keeps all stages of a retry out of the way, and with them all
timers.
-/

namespace ControlLoop

/-- What was accepted, if that is what the notice says. -/
def Notice.accepted? : Notice → Option (Key × Trigger)
  | accepted key kind => some (key, kind)
  | refused _ | delivered .. | began _ | delayed .. | released _ | recorded _ => none

/-- The key of a record and what set the attempt off. -/
def Record.cause (r : Record) : Key × Trigger := (r.key, r.trigger)

namespace Pool

/-- What was accepted along a log: keys, each with what set it off. -/
def acceptedIn (log : Log) : List (Key × Trigger) := log.filterMap (·.2.accepted?)

/-- What was accepted along two logs is what was accepted along the first and then along the
second. -/
@[simp] theorem acceptedIn_append (l₁ l₂ : Log) : acceptedIn (l₁ ++ l₂) = acceptedIn l₁ ++ acceptedIn l₂ :=
  List.filterMap_append

namespace Stage

/-- The key in hand, from the delivery until the record, and what set the delivery off. -/
def inHand : Stage → List (Key × Trigger)
  | asking | releasing _ | exited => []
  | holding key kind => [(key, kind)]
  | handling a | counting a .. | retrying a .. | settled a .. => [(a.key, a.trigger)]

/-- A failure is never retried. -/
def IsFinal : Stage → Prop
  | counting _ _ _ failures => 0 < failures
  | retrying .. => False
  | settled _ _ outcome => ∀ e, outcome ≠ .failure e
  | asking | holding .. | handling _ | releasing _ | exited => True

/-- The key of a worker is in hand until its attempt is recorded, and then it is to be given
back. -/
theorem key?_cases {stage : Stage} {key : Key} (h : stage.key? = some key) :
    key ∈ stage.inHand.map Prod.fst ∨ stage = .releasing key := by
  cases stage with
  | asking | exited => cases h
  | releasing k => exact .inr (congrArg _ (Option.some.inj h))
  | holding | handling | counting | retrying | settled => exact .inl (List.mem_singleton.mpr (Option.some.inj h).symm)

end Stage

/-- What was accepted stands in line: first what has been recorded, then what is in hand, then what
waits. With one worker and no retries nothing overtakes, and with no key accepted twice nothing is
folded. -/
structure InLine (accepted recorded : List (Key × Trigger)) (p : Pool) : Prop where
  /-- the line -/
  order : accepted = recorded ++ p.workers.flatMap Stage.inHand ++ p.queue.pending.map fun key => (key, p.kindOf key)
  /-- there is one worker at most -/
  lone : p.workers.length ≤ 1
  /-- it does not retry -/
  final : ∀ s ∈ p.workers, s.IsFinal
  /-- it gives back what has been recorded -/
  released : ∀ key, .releasing key ∈ p.workers → key ∈ recorded.map Prod.fst
  /-- no key has come while it was handed out -/
  unmarked : ∀ key, key ∉ p.queue.dirty
  /-- no timer runs -/
  untimed : p.queue.timers = []
  /-- it is kept only of the keys that wait what sets their delivery off -/
  kinds : ∀ key ∈ p.kinds, key ∈ p.queue.pending
  /-- the supervisor has nothing to close out -/
  cancelled : p.supervisor.cancelled = []

variable {setup : Setup} {clocks : Clocks} {p q : Pool} {a : Action} {notices : List Notice} {i : Nat}
  {old new : Stage} {key : Key} {accepted recorded : List (Key × Trigger)}

/-- In a pool that has not run nothing was accepted, and nothing stands in line. -/
theorem inLine_fresh (capacity : Nat) : (fresh capacity).InLine [] [] where
  order := rfl
  lone := Nat.zero_le 1
  final := by simp [fresh]
  released := by simp [fresh]
  unmarked := by simp [fresh]
  untimed := rfl
  kinds := by simp [fresh]
  cancelled := rfl

namespace InLine

/-- The bell, the accounts and the ledger do not matter. -/
theorem congr (h : p.InLine accepted recorded) (hp : q.queue.pending = p.queue.pending)
    (hd : q.queue.dirty = p.queue.dirty) (ht : q.queue.timers = p.queue.timers) (hk : q.kinds = p.kinds)
    (hw : q.workers = p.workers) (hs : q.supervisor.cancelled = p.supervisor.cancelled) :
    q.InLine accepted recorded := by
  obtain ⟨order, lone, final, released, unmarked, untimed, kinds, cancelled⟩ := h
  constructor <;> simp only [kindOf, hp, hd, ht, hk, hw, hs] at * <;> assumption

/-! ## Keys

What was not accepted before is not in the line. As the line holds all keys that are waiting or held
(`InLine.order`), a key that is accepted for the first time does neither, and to put it in appends
it. -/

/-- A key that is put in for the first time is at rest. -/
theorem resting (h : p.InLine accepted recorded) (hp : p.Sound setup) (hnew : key ∉ accepted.map Prod.fst) :
    key ∉ p.queue.pending ∧ key ∉ p.queue.processing := by
  rw [h.order] at hnew
  simp only [List.map_append, List.mem_append, not_or] at hnew
  obtain ⟨⟨hrecorded, hhand⟩, hpending⟩ := hnew
  constructor
  · intro hmem
    exact hpending (by simpa using hmem)
  · intro hmem
    obtain ⟨s, hs, hkey⟩ := mem_held.mp ((hp.mem_processing key).mp hmem)
    rcases Stage.key?_cases hkey with hin | rfl
    · obtain ⟨cause, hcause, rfl⟩ := List.mem_map.mp hin
      exact hhand (List.mem_map.mpr ⟨cause, List.mem_flatMap.mpr ⟨s, hs, hcause⟩, rfl⟩)
    · exact hrecorded (h.released key hs)

/-- A key that is accepted for the first time comes to the end of the line. -/
theorem accept (h : p.InLine accepted recorded) (hp : p.Sound setup) (hnew : key ∉ accepted.map Prod.fst)
    (kind : Trigger) : (p.accept key kind).InLine (accepted ++ [(key, kind)]) recorded := by
  obtain ⟨hpending, hout⟩ := h.resting hp hnew
  have hqueue : p.queue.insert key = p.queue.append key :=
    Queue.insert_of_not_mem hout fun hmem => hpending ((hp.queue.mem_queued key).mp hmem)
  have hkind : p.kinds[key]? = none := Std.ExtTreeMap.getElem?_eq_none fun hmem => hpending (h.kinds key hmem)
  have hpool : p.accept key kind = { p with kinds := p.kinds.insert key kind, queue := p.queue.append key } := by
    rw [Pool.accept, hqueue, hkind]
    rfl
  rw [hpool]
  refine ⟨?_, h.lone, h.final, h.released, h.unmarked, h.untimed, fun k hk => ?_, h.cancelled⟩
  · have hold : ∀ k ∈ p.queue.pending, (p.kinds.insert key kind)[k]?.getD .auto = p.kindOf k := by
      intro k hk
      have hne : key ≠ k := fun heq => hpending (heq ▸ hk)
      rw [Std.ExtTreeMap.getElem?_insert, if_neg (mt Std.compare_eq_iff_eq.mp hne), kindOf]
    simp only [Queue.append, List.map_append, List.map_singleton, kindOf, Std.ExtTreeMap.getElem?_insert_self,
      Option.getD_some]
    rw [List.map_congr_left fun k hk => congrArg (Prod.mk k) (hold k hk), ← List.append_assoc, ← h.order]
  · rcases Std.ExtTreeMap.mem_insert.mp hk with heq | hk
    · obtain rfl := Std.compare_eq_iff_eq.mp heq
      exact List.mem_append_right _ (List.mem_singleton.mpr rfl)
    · exact List.mem_append_left _ (h.kinds k hk)

/-! ## The worker

With one worker, what is in hand is a matter of its stage alone. Its moves shift the two boundaries
in the line: when it takes a key the first of those that wait comes into its hand, and when it makes
a record what is in hand joins what is recorded (`InLine.move`). -/

/-- The worker that takes a step is the only one. -/
theorem workers_eq (h : p.InLine accepted recorded) (hw : p.workers[i]? = some old) :
    p.workers = [old] ∧ ∀ new, (p.moveTo i new).workers = [new] := by
  obtain ⟨before, after, hworkers, hmove⟩ := moveTo_split hw
  have hlength := h.lone
  rw [hworkers, List.length_append, List.length_cons] at hlength
  obtain rfl : before = [] := List.length_eq_zero_iff.mp (by omega)
  obtain rfl : after = [] := List.length_eq_zero_iff.mp (by omega)
  exact ⟨hworkers, hmove⟩

/-- No worker is at a stage of a retry. -/
theorem isFinal (h : p.InLine accepted recorded) (hw : p.workers[i]? = some old) : old.IsFinal :=
  h.final old (List.mem_of_getElem? hw)

/-- What is in hand stands between what is recorded and what waits. -/
theorem order_of_worker (h : p.InLine accepted recorded) (hw : p.workers[i]? = some old) :
    accepted = recorded ++ old.inHand ++ p.queue.pending.map fun key => (key, p.kindOf key) := by
  have horder := h.order
  rw [(h.workers_eq hw).1, List.flatMap_singleton] at horder
  exact horder

/-- The worker moves on with what it has in hand, or has recorded it. -/
theorem move (h : p.InLine accepted recorded) (hw : p.workers[i]? = some old) (hnew : new.IsFinal)
    {more : List (Key × Trigger)} (hh : old.inHand = more ++ new.inHand)
    (hr : ∀ key, new = .releasing key → key ∈ (recorded ++ more).map Prod.fst) :
    (p.moveTo i new).InLine accepted (recorded ++ more) := by
  have hworkers := (h.workers_eq hw).2 new
  refine ⟨?_, ?_, ?_, ?_, h.unmarked, h.untimed, h.kinds, h.cancelled⟩
  · rw [hworkers, List.flatMap_singleton, List.append_assoc recorded, ← hh]
    exact h.order_of_worker hw
  · rw [hworkers, List.length_singleton]
  · rw [hworkers]
    intro s hs
    exact List.mem_singleton.mp hs ▸ hnew
  · rw [hworkers]
    intro key hkey
    exact hr key (List.mem_singleton.mp hkey).symm

theorem moveOn (h : p.InLine accepted recorded) (hw : p.workers[i]? = some old) (hnew : new.IsFinal)
    (hh : old.inHand = new.inHand) (hr : ∀ key, new ≠ .releasing key) :
    (p.moveTo i new).InLine accepted recorded := by
  rw [← List.append_nil recorded]
  exact h.move hw hnew hh fun key heq => absurd heq (hr key)

/-- The worker takes the first key that waits. -/
theorem take (h : p.InLine accepted recorded) (hp : p.Sound setup) {rest : List Key}
    (hw : p.workers[i]? = some .asking) (hpending : p.queue.pending = key :: rest) :
    (p.taken i key rest).InLine accepted recorded := by
  have hworkers : (p.taken i key rest).workers = [.holding key (p.kindOf key)] := (h.workers_eq hw).2 _
  have hnodup := hp.queue.nodup_pending
  rw [hpending, List.nodup_cons] at hnodup
  refine ⟨?_, ?_, ?_, ?_, h.unmarked, h.untimed, fun k hk => ?_, h.cancelled⟩
  · have hkept : ∀ k ∈ rest, (p.taken i key rest).kindOf k = p.kindOf k := by
      intro k hk
      have hne : key ≠ k := fun heq => hnodup.1 (heq ▸ hk)
      show (p.kinds.erase key)[k]?.getD .auto = _
      rw [Std.ExtTreeMap.getElem?_erase, if_neg (mt Std.compare_eq_iff_eq.mp hne), kindOf]
    have horder := h.order_of_worker hw
    rw [hpending, List.map_cons] at horder
    rw [hworkers, List.flatMap_singleton, horder, Stage.inHand, Stage.inHand, List.append_nil, List.append_assoc]
    refine congrArg (recorded ++ (key, p.kindOf key) :: ·) ?_
    exact (List.map_congr_left fun k hk => congrArg (Prod.mk k) (hkept k hk)).symm
  · rw [hworkers, List.length_singleton]
  · simp [hworkers, Stage.IsFinal]
  · simp [hworkers]
  · obtain ⟨hne, hk⟩ := Std.ExtTreeMap.mem_erase.mp hk
    have hmem := h.kinds k hk
    rw [hpending] at hmem
    exact (List.mem_cons.mp hmem).resolve_left fun heq => hne (heq ▸ Std.compare_self)

/-- The worker gives its key back, which has not come again. -/
theorem giveBack (h : p.InLine accepted recorded) (hw : p.workers[i]? = some (.releasing key)) :
    (p.givenBack i key).InLine accepted recorded := by
  have hmove : (p.moveTo i .asking).InLine accepted recorded := h.moveOn hw trivial rfl (by simp)
  rw [givenBack, Queue.done_of_not_mem_dirty (h.unmarked key)]
  exact ⟨hmove.order, hmove.lone, hmove.final, hmove.released, hmove.unmarked, hmove.untimed, hmove.kinds,
    hmove.cancelled⟩

/-! ## Steps

A step of the pool is one of the moves above, or does not touch the line. The stages of a retry, the
timers and the list of the supervisor do not occur: this is what `IsFinal` and the other clauses of
`InLine` exclude. -/

/-- To start the pool changes nothing in the line: the worker comes with empty hands. -/
theorem start (h : p.InLine accepted recorded) (hp : p.Sound setup) (hw : setup.workers = 1) (hi : p.phase = .idle) :
    (p.start setup clocks).InLine accepted recorded := by
  obtain ⟨hnone, -⟩ := hp.idle hi
  have hworkers : (p.start setup clocks).workers = [.asking] := by rw [Pool.start, hw]; rfl
  refine ⟨?_, ?_, ?_, ?_, h.unmarked, h.untimed, h.kinds, rfl⟩
  · have horder := h.order
    rw [hnone] at horder
    rw [hworkers]
    exact horder
  · rw [hworkers, List.length_singleton]
  · simp [hworkers, Stage.IsFinal]
  · simp [hworkers]

/-- A pool without retries has no delays to cancel. -/
theorem shutDown_fst (h : p.InLine accepted recorded) (hp : p.Sound setup) : p.queue.shutDown.1 = [] := by
  cases hc : p.queue.closed with
  | true => rw [Queue.shutDown, if_pos hc]
  | false =>
    rw [Queue.shutDown_of_open hc]
    refine List.eq_nil_iff_forall_not_mem.mpr fun key hkey => ?_
    obtain ⟨m, hm⟩ := Option.isSome_iff_exists.mp
      (Std.ExtTreeMap.mem_iff_isSome_getElem?.mp (Std.ExtTreeMap.mem_keys.mp hkey))
    have htimer := hp.queue.mem_timers key m hm
    rw [h.untimed] at htimer
    cases htimer

/-- When what sets deliveries off is forgotten, no key waits. -/
theorem forget (h : p.InLine accepted recorded) (hp : p.Sound setup) (hw : 1 ≤ setup.workers)
    (hs : p.supervisor = .draining []) (he : ∀ s ∈ p.workers, s = .exited) :
    ({ p with kinds := ∅, supervisor := .closing } : Pool).InLine accepted recorded := by
  have hstarted : p.phase ≠ .idle := by
    intro hi
    rw [(hp.idle hi).2] at hs
    cases hs
  have hempty := hp.drained (hp.workers_ne_nil hw hstarted) he
  refine ⟨?_, h.lone, h.final, h.released, h.unmarked, h.untimed, by simp, rfl⟩
  have horder := h.order
  rw [hempty] at horder ⊢
  exact horder

/-- Every step keeps the line, as long as no key is accepted twice. -/
theorem act (h : p.InLine accepted recorded) (hp : p.Sound setup) (hw : setup.workers = 1)
    (hl : setup.retryLimit = 0) (hact : p.act setup clocks a = some (q, notices))
    (hn : ((accepted ++ notices.filterMap Notice.accepted?).map Prod.fst).Nodup) :
    q.InLine (accepted ++ notices.filterMap Notice.accepted?)
      (recorded ++ (notices.filterMap Notice.record?).map Record.cause) := by
  have hsame : p.InLine (accepted ++ []) (recorded ++ []) := by
    rw [List.append_nil, List.append_nil]
    exact h
  cases step_of_act hact with
  | @accepted key kind ho =>
    refine (List.append_nil recorded).symm ▸ h.accept hp (fun hmem => ?_) kind
    rw [List.map_append, List.nodup_append] at hn
    exact hn.2.2 key hmem key (List.mem_singleton.mpr rfl) rfl
  | @put key next left ho =>
    have haccept : (p.accept key .auto).InLine (accepted ++ [(key, .auto)]) (recorded ++ []) := by
      refine (List.append_nil recorded).symm ▸ h.accept hp (fun hmem => ?_) .auto
      rw [List.map_append, List.nodup_append] at hn
      exact hn.2.2 key hmem key (List.mem_singleton.mpr rfl) rfl
    exact haccept.congr rfl rfl rfl rfl rfl rfl
  | refused | stopRequested | ticked | putLate | resyncEnded => exact hsame.congr rfl rfl rfl rfl rfl rfl
  | started hi => exact hsame.start hp hw hi
  | took hw _ hpending => exact hsame.take hp hw hpending
  | @left i hw =>
    have hmove : (p.moveTo i .exited).InLine _ _ := hsame.moveOn hw trivial rfl (by simp)
    exact hmove.congr rfl rfl rfl rfl rfl rfl
  | waited => exact hsame.congr rfl rfl rfl rfl rfl rfl
  | released hw => exact hsame.giveBack hw
  | began hw => exact hsame.moveOn hw trivial rfl (by simp)
  | @succeeded i a result hw =>
    have hmove : (p.moveTo i (.settled a (a.elapsed clocks.now) .success)).InLine _ _ :=
      hsame.moveOn hw (by simp [Stage.IsFinal]) rfl (by simp)
    exact hmove.congr rfl rfl rfl rfl rfl rfl
  | @failed i a result error hw =>
    have hmove : (p.moveTo i (.counting a (a.elapsed clocks.now) error (p.retryCount a.key + 1))).InLine _ _ :=
      hsame.moveOn hw (Nat.succ_pos _) rfl (by simp)
    exact hmove.congr rfl rfl rfl rfl rfl rfl
  | @dropped i a d e f hw =>
    have hmove : (p.moveTo i (.settled a d (.failureFinal e))).InLine _ _ :=
      hsame.moveOn hw (by simp [Stage.IsFinal]) rfl (by simp)
    exact hmove.congr rfl rfl rfl rfl rfl rfl
  | kept hw hf => exact absurd (h.isFinal hw) (Nat.not_lt.mpr (hl ▸ hf))
  | retriedAtOnce hw | retryCovered hw | retryDelayed hw | retryRefused hw => exact (h.isFinal hw).elim
  -- what was in hand is recorded, and the line moves up
  | @recorded i a d o hw =>
    have hmove : (p.moveTo i (.releasing a.key)).InLine accepted (recorded ++ [(a.key, a.trigger)]) :=
      h.move hw (by simp [Stage.IsFinal]) rfl (by simp)
    rw [← List.append_nil accepted] at hmove
    exact hmove.congr rfl rfl rfl rfl rfl rfl
  -- no timer runs, since nothing is ever delayed
  | fired ht =>
    rw [h.untimed] at ht
    cases ht
  | @lapsed key m hm =>
    have herase : p.queue.timers.erase (key, m) = p.queue.timers := by rw [h.untimed]; rfl
    refine hsame.congr ?_ ?_ ?_ rfl rfl rfl <;> rw [Queue.fire_of_not_delayed hm]
    exact herase
  | heard hs => exact hsame.congr rfl rfl rfl rfl rfl (by rw [hs]; rfl)
  | shut hs =>
    have hnone := h.shutDown_fst hp
    rw [Queue.shutDown_of_open (hp.open_of_endingResync hs)] at hnone ⊢
    exact hsame.congr rfl rfl rfl rfl rfl (by rw [hs]; exact hnone)
  | passedOver hs | closedOut hs =>
    have hnone := h.cancelled
    rw [hs] at hnone
    cases hnone
  | forgot hs he => exact hsame.forget hp (Nat.le_of_eq hw.symm) hs he
  | stopped hs => exact hsame.congr rfl rfl rfl rfl rfl (by rw [hs]; rfl)

end InLine

/-- Unless a key has been accepted twice, what was accepted stands in line. In this form every step
keeps it, whatever is accepted. -/
def LinesUp (log : Log) (p : Pool) : Prop :=
  ((acceptedIn log).map Prod.fst).Nodup → p.InLine (acceptedIn log) ((records log).map Record.cause)

/-- A step of a pool keeps the keys lined up. If a key has been accepted twice already, nothing is
promised any more. -/
theorem LinesUp.act {log : Log} (h : p.LinesUp log) (hp : p.Sound setup) (hw : setup.workers = 1)
    (hl : setup.retryLimit = 0) (hact : p.act setup clocks a = some (q, notices)) :
    q.LinesUp (log ++ notices.map (clocks.now, ·)) := by
  intro hn
  have haccepted : acceptedIn (notices.map (clocks.now, ·)) = notices.filterMap Notice.accepted? := List.filterMap_map
  have hrecords : records (notices.map (clocks.now, ·)) = notices.filterMap Notice.record? := List.filterMap_map
  rw [acceptedIn_append, haccepted] at hn ⊢
  rw [records_append, hrecords, List.map_append]
  have hearlier : ((acceptedIn log).map Prod.fst).Nodup := by
    rw [List.map_append] at hn
    exact (List.nodup_append.mp hn).1
  exact (h hearlier).act hp hw hl hact hn

/-- Along every run in which no key is accepted twice, the keys stand in line. -/
theorem inLine_of_run {capacity : Nat} {steps : List (Clocks × Action)} {log : Log} (hw : setup.workers = 1)
    (hl : setup.retryLimit = 0) (h : run setup (fresh capacity) steps = some (p, log))
    (hn : ((acceptedIn log).map Prod.fst).Nodup) :
    p.InLine (acceptedIn log) ((records log).map Record.cause) := by
  have hstart : (fresh capacity).Sound setup ∧ (fresh capacity).LinesUp [] :=
    ⟨sound_fresh setup capacity, fun _ => inLine_fresh capacity⟩
  rw [run_eq_takeSteps] at h
  have hend := takeSteps_induct (fun p log => p.Sound setup ∧ p.LinesUp log) ?_ hstart h
  · exact hend.2 hn
  · rintro p ⟨clocks, a⟩ q earlier new ⟨hp, hline⟩ hstep
    obtain ⟨⟨_, notices⟩, hact, hchange⟩ := Option.map_eq_some_iff.mp hstep
    obtain ⟨rfl, rfl⟩ := Prod.mk.inj hchange
    exact ⟨sound_of_act hp hact, hline.act hp hw hl hact⟩

/-- When the pool has stopped, all that was accepted has been recorded, in the order in which it
came. -/
theorem InLine.recorded_of_stopped (h : p.InLine accepted recorded) (hp : p.Sound setup) (hw : 1 ≤ setup.workers)
    (hs : p.phase = .stopped) : recorded = accepted := by
  have hexited := hp.exited_of_stopped hs
  have hempty := hp.drained (hp.workers_ne_nil hw (by simp [hs])) hexited
  have hhand : p.workers.flatMap Stage.inHand = [] := by
    refine List.flatMap_eq_nil_iff.mpr fun s hs => ?_
    rw [hexited s hs]
    rfl
  rw [h.order, hhand, hempty, List.map_nil, List.append_nil, List.append_nil]

end Pool

end ControlLoop
