import Mathlib.Data.List.Nodup
import ControlLoop.Proofs.Daemon.Named
import ControlLoop.Proofs.Pool.Drain
import ControlLoop.Proofs.Record.Tail

/-!
# The ledger of a daemon

What a daemon prints at the end follows from its input, if its lines are about different keys, it
has one worker that forgives no failure, and the resync keeps out of it. Then the keys go through
the queue in the order of the lines, each once (`Pool.InLine`), and the attempt on a key finds what
the line has left there: the ledger ends with one record for each line that counts. However the
input, the worker and the supervisor take turns, this end is reached: each move brings the daemon
nearer to it (`rank_lt`), and until then there is a move to make (`OnCourse.goes_on`). Only a ledger
for which no room can be set aside keeps a daemon from starting whose settings make sense
(`starts_iff`).

The two halves meet in `OnCourse`: what is so of every daemon that reads some of the lines without
the resync. With one worker that forgives nothing it says where each key stands (`OnCourse.inLine`),
and that there is a move to make until the daemon has drained. Since `rank_lt` bounds the number of
moves, making them comes to an end (`OnCourse.drains`).
-/

namespace ControlLoop

/-- What a record says of an attempt, but for its time and its id. -/
def Record.gist (r : Record) : Key × Trigger × Nat × Outcome := (r.key, r.trigger, r.retryCount, r.outcome)

/-- What is to be recorded of an event: one attempt, set off manually, that is no retry. -/
def Event.gist (e : Event) : Key × Trigger × Nat × Outcome := (e.id, .manual, 0, e.outcome)

namespace Daemon.Live

open TenantStore

variable {setup : Pool.Setup} {clocks : Clocks} {capacity : Nat} {l m : Live} {move : Move} {seen log : List Seen}
  {lines : List String} {accepted recorded : List (Key × Trigger)}

/-- Does the resync make the move, or are keys triggered on the pool's own account? -/
def Move.isResync : Move → Bool
  | pool (.tick _) | pool (.put _) | pool (.trigger ..) => true
  | pool .run | pool .stop | pool (.work _) | pool (.finish ..) | pool (.fire ..) | pool .endResync
  | pool .supervise | take _ | tell | stop | look _ | finish _ => false

/-- A step that the pool takes by itself, and not for the resync, is one of its routine. -/
theorem isRoutine_of_isOwn {a : Pool.Action} (ha : a.isOwn = true) (hq : (Move.pool a).isResync = false) :
    a.isRoutine = true := by
  cases a with
  | run | work | fire | endResync | supervise => rfl
  | stop | finish => cases ha
  | trigger | tick | put => cases hq

theorem isOwn_of_isRoutine {a : Pool.Action} (ha : a.isRoutine = true) (hput : ∀ key, a ≠ .put key) :
    a.isOwn = true ∧ (Move.pool a).isResync = false := by
  cases a with
  | run | work | fire | endResync | supervise => exact ⟨rfl, rfl⟩
  | put key => exact absurd rfl (hput key)
  | stop | finish | trigger | tick => cases ha

theorem byPool_of_act {a : Pool.Action} {pool : Pool} {notices : List Notice}
    (h : l.pool.act setup clocks a = some (pool, notices)) :
    l.byPool setup clocks a = some ({ l with pool }, notices.map (.notice clocks.now)) := by
  rw [byPool, h]
  rfl

/-! ## Every move brings the end nearer

The weights in `rank` are those of the longest way that a line can take. Reading it costs one move
and makes a key due, which weighs 11; the trigger takes the 11 away and raises the rank of the pool
by 10 at most. -/

/-- How many moves are left to a daemon with one worker, at most, if there are `left` lines to come.
Each line may come to a trigger and to all steps of an attempt; the rest is counted by the rank of
the pool. -/
def rank (left : Nat) (l : Live) : Nat :=
  12 * left + (if l.due = none then 0 else 11) + (if l.reading then 1 else 0) + l.pool.rank (l.found 0).isSome

/-- Every move that is none of the resync's brings the end nearer. Reading a line costs less than
the moves that it brings about, triggering a key less than handling it, and each step of the pool
lowers the rank of the pool itself. -/
theorem rank_lt (h : l.pool.InLine accepted recorded) (hl : l.Sound setup) (hw : setup.workers = 1)
    (hlimit : setup.retryLimit = 0) (hact : l.act setup clocks move = some (m, seen)) (hq : move.isResync = false)
    (left : Nat) : m.rank left < l.rank (left + (linesOf seen).length) := by
  cases move with
  | take line =>
    obtain ⟨⟨-, hd⟩, hact⟩ := Option.ite_none_right_eq_some.mp hact
    split at hact
    · -- a line that counts makes its key due; one that does not is only gone
      next key store ht =>
      cases hact
      simp only [rank, linesOf_line, List.length_singleton, hd, reduceCtorEq, if_false, if_true]
      omega
    · cases hact
      simp only [rank, linesOf_line, List.length_singleton]
      omega
  | tell =>
    rw [act] at hact
    split at hact
    · next key hd =>
      obtain ⟨pool, notices, hpool, rfl, rfl⟩ := byPool_eq_some hact
      obtain rfl := hl.calm.accept hl.pool hd hpool
      have hrank := l.pool.rank_accept_le key .manual (l.found 0).isSome
      simp only [rank, linesOf_notices, List.length_nil, hd, reduceCtorEq, if_false, if_true]
      omega
    · cases hact
  | stop =>
    obtain ⟨⟨hr, hd⟩, hact⟩ := Option.ite_none_right_eq_some.mp hact
    obtain ⟨pool, notices, hpool, rfl, rfl⟩ := byPool_eq_some hact
    cases hpool
    have hrank : ({ l.pool with stopRequested := true } : Pool).rank (l.found 0).isSome =
      l.pool.rank (l.found 0).isSome := rfl
    simp only [rank, linesOf_notices, List.length_nil, hr, hrank, Bool.false_eq_true, if_false, if_true]
    omega
  | look i =>
    rw [act] at hact
    split at hact
    · next a hworker hf =>
      cases hact
      -- with one worker the handler that looks is that of worker 0, whose look is counted
      obtain rfl := h.index_eq hworker
      have hrank : l.pool.rank true < l.pool.rank false := h.rank_lt_of_looked hworker
      simp only [rank, linesOf, List.filterMap_nil, List.length_nil, hf, Function.update_self, Option.isSome_some,
        Option.isSome_none]
      omega
    · cases hact
  | finish i =>
    rw [act] at hact
    split at hact
    · next a found hworker hf =>
      obtain ⟨pool, notices, hpool, rfl, rfl⟩ := byPool_eq_some hact
      obtain rfl := h.index_eq hworker
      have hrank : pool.rank false < l.pool.rank true := h.rank_lt_of_finish hpool
      simp only [rank, linesOf_notices, List.length_nil, hf, Function.update_self, Option.isSome_some,
        Option.isSome_none]
      omega
    · cases hact
  | pool a =>
    obtain ⟨ha, hact⟩ := Option.ite_none_right_eq_some.mp hact
    obtain ⟨pool, notices, hpool, rfl, rfl⟩ := byPool_eq_some hact
    have hrank := h.rank_lt hl.pool hw hlimit (isRoutine_of_isOwn ha hq) hpool (l.found 0).isSome
    simp only [rank, linesOf_notices, List.length_nil]
    omega

/-! ## What is so on the way

`OnCourse` is an invariant of the moves of any such daemon, whatever the number of its workers. Only
`inLine` and what follows from it need that there is one worker and that no failure is forgiven. -/

/-- What a move that is none of the resync's has the pool do, if anything. -/
theorem pool_of_act (hact : l.act setup clocks move = some (m, seen)) (hq : move.isResync = false) :
    m.pool = l.pool ∧ noticesOf seen = [] ∨
      ∃ a notices, (∀ keys, a ≠ .tick keys) ∧ (∀ key, a ≠ .put key) ∧ (∀ key, a ≠ .trigger key .auto) ∧
        l.pool.act setup clocks a = some (m.pool, notices) ∧ noticesOf seen = notices.map (clocks.now, ·) := by
  cases move with
  | take line =>
    obtain ⟨-, hact⟩ := Option.ite_none_right_eq_some.mp hact
    split at hact <;> cases hact <;> exact .inl ⟨rfl, rfl⟩
  | tell =>
    rw [act] at hact
    split at hact
    · obtain ⟨pool, notices, hpool, rfl, rfl⟩ := byPool_eq_some hact
      exact .inr ⟨_, notices, by simp, by simp, by simp, hpool, noticesOf_notices ..⟩
    · cases hact
  | stop =>
    obtain ⟨-, hact⟩ := Option.ite_none_right_eq_some.mp hact
    obtain ⟨pool, notices, hpool, rfl, rfl⟩ := byPool_eq_some hact
    exact .inr ⟨_, notices, by simp, by simp, by simp, hpool, noticesOf_notices ..⟩
  | look i =>
    rw [act] at hact
    split at hact <;> cases hact
    exact .inl ⟨rfl, rfl⟩
  | finish i =>
    rw [act] at hact
    split at hact
    · obtain ⟨pool, notices, hpool, rfl, rfl⟩ := byPool_eq_some hact
      exact .inr ⟨_, notices, by simp, by simp, by simp, hpool, noticesOf_notices ..⟩
    · cases hact
  | pool a =>
    obtain ⟨-, hact⟩ := Option.ite_none_right_eq_some.mp hact
    obtain ⟨pool, notices, hpool, rfl, rfl⟩ := byPool_eq_some hact
    refine .inr ⟨a, notices, ?_, ?_, ?_, hpool, noticesOf_notices ..⟩
    · rintro keys rfl
      cases hq
    · rintro key rfl
      cases hq
    · rintro key rfl
      cases hq

/-- What is so of a daemon that reads some lines while the resync keeps out of it. It does not ask
for one worker, or for lines about different keys; these come in where the keys have to stand in
line (`OnCourse.inLine`). -/
structure OnCourse (setup : Pool.Setup) (capacity : Nat) (lines : List String) (l : Live) (log : List Seen) : Prop where
  /-- it has been reached -/
  reached : Reached setup capacity l log
  /-- the keys that the lines have named have been triggered -/
  announced : l.Announced log
  /-- the resync has put in no key -/
  quiet : ∀ e ∈ noticesOf log, ∀ key, e.2 ≠ .accepted key .auto
  /-- and it has none left to put in -/
  idle : l.pool.resync.left = []
  /-- it has read some of the lines -/
  heard : linesOf log <+: lines
  /-- when it reads no more its pool has been told to stop -/
  told : l.reading = false → l.pool.stopRequested = true
  /-- its pool does not wait for what will not come -/
  mobile : l.pool.Mobile

/-- A daemon that has not begun is on course, whatever lines are to come. -/
theorem onCourse_fresh (setup : Pool.Setup) (capacity : Nat) (lines : List String) :
    OnCourse setup capacity lines (fresh capacity) [] where
  reached := reached_fresh setup capacity
  announced := announced_fresh capacity
  quiet := by simp [noticesOf]
  idle := rfl
  heard := List.nil_prefix
  told h := by cases h
  mobile := Pool.mobile_fresh capacity

namespace OnCourse

/-- A move that is none of the resync's keeps the daemon on course, if it reads no other lines. -/
theorem act (h : OnCourse setup capacity lines l log) (hact : l.act setup clocks move = some (m, seen))
    (hq : move.isResync = false) (hheard : linesOf (log ++ seen) <+: lines) :
    OnCourse setup capacity lines m (log ++ seen) where
  reached := h.reached.act hact
  announced := h.announced.turn h.reached.sound h.reached.converging.store (turn_of_act hact)
  quiet := by
    rw [noticesOf_append]
    refine List.forall_mem_append.mpr ⟨h.quiet, ?_⟩
    rcases pool_of_act hact hq with ⟨-, hnone⟩ | ⟨a, notices, -, hput, htrigger, hpool, heq⟩
    · rw [hnone]
      exact List.forall_mem_nil _
    · rw [heq]
      refine List.forall_mem_map.mpr fun n hn key hauto => ?_
      obtain rfl : n = .accepted key .auto := hauto
      -- an automatic trigger would be a move of the resync
      rcases Pool.resync_of_auto hpool hn with rfl | rfl
      · exact htrigger key rfl
      · exact hput key rfl
  idle := by
    rcases pool_of_act hact hq with ⟨hsame, -⟩ | ⟨a, notices, htick, -, -, hpool, -⟩
    · rw [hsame]
      exact h.idle
    · exact Pool.left_of_act htick h.idle hpool
  heard := hheard
  told := by
    have hkept : ∀ {a pool notices}, a ≠ Pool.Action.stop → l.pool.act setup clocks a = some (pool, notices) →
        l.reading = false → pool.stopRequested = true :=
      fun ha hpool hr => (Pool.stopRequested_of_act ha hpool).trans (h.told hr)
    cases turn_of_act hact with
    | passed | took | looked => exact h.told
    | told _ hpool => exact hkept (by simp) hpool
    | stopped _ hpool =>
      cases hpool
      exact fun _ => rfl
    | finished _ _ hpool => exact hkept (by simp) hpool
    | worked ha hpool =>
      refine hkept ?_ hpool
      rintro rfl
      cases ha
  mobile := by
    rcases (turn_of_act hact).pool with ⟨a, notices, hpool, -⟩ | ⟨heq, -⟩
    · exact Pool.mobile_of_act h.mobile h.reached.sound.pool hpool
    · rw [heq]
      exact h.mobile

/-- What has been accepted stands in line: the keys of the lines differ, and only they have been
triggered, so no key has been accepted twice. -/
theorem inLine (h : OnCourse setup capacity lines l log) (hw : setup.workers = 1) (hlimit : setup.retryLimit = 0)
    (hids : ((events lines).map Event.id).Nodup) :
    l.pool.InLine (Pool.acceptedIn (noticesOf log)) ((Pool.records (noticesOf log)).map Record.cause) := by
  obtain ⟨steps, hrun⟩ := h.reached.run
  refine Pool.inLine_of_run hw hlimit hrun ?_
  have hkeys : (Pool.acceptedIn (noticesOf log)).map Prod.fst = Pool.manualIn (noticesOf log) := by
    rw [Pool.acceptedIn_eq h.quiet, List.map_map]
    exact List.map_id _
  have hprefix : Pool.manualIn (noticesOf log) <+: (events lines).map Event.id := by
    have hnamed : Pool.manualIn (noticesOf log) <+: (takeAll (linesOf log)).1 := ⟨l.due.toList, h.announced⟩
    rw [(takeAll_eq (linesOf log)).1] at hnamed
    exact hnamed.trans ((h.heard.filterMap event?).map Event.id)
  rw [hkeys]
  exact hids.sublist hprefix.sublist

/-- A move that reads no line. -/
theorem goes_on_silently (h : OnCourse setup capacity lines l log) (hact : l.act setup clocks move = some (m, seen))
    (hq : move.isResync = false) (hseen : linesOf seen = []) (hrest : m.reading = true ∨ linesOf log = lines) :
    ∃ move m seen, l.act setup clocks move = some (m, seen) ∧ move.isResync = false ∧
      linesOf (log ++ seen) <+: lines ∧ (m.reading = true ∨ linesOf (log ++ seen) = lines) := by
  refine ⟨move, m, seen, hact, hq, ?_⟩
  rw [linesOf_append, hseen, List.append_nil]
  exact ⟨h.heard, hrest⟩

/-- Until the daemon has drained there is a move to make, and it gets on with the lines. A key that
is due is triggered; the next line is read; after the last one the signal to stop is given; and then
the pool goes on, with the looks of its handlers in between. -/
theorem goes_on (h : OnCourse setup capacity lines l log) (clocks : Clocks)
    (hrest : l.reading = true ∨ linesOf log = lines) (hs : l.pool.phase ≠ .stopped) :
    ∃ move m seen, l.act setup clocks move = some (m, seen) ∧ move.isResync = false ∧
      linesOf (log ++ seen) <+: lines ∧ (m.reading = true ∨ linesOf (log ++ seen) = lines) := by
  cases hdue : l.due with
  | some key =>
    obtain ⟨pool, notices, hpool⟩ :
        ∃ pool notices, l.pool.act setup clocks (.trigger key .manual) = some (pool, notices) :=
      ⟨_, _, rfl⟩
    have hact : l.act setup clocks .tell = some ({ l with pool, due := none }, notices.map (.notice clocks.now)) := by
      simp only [Live.act, hdue]
      exact byPool_of_act hpool
    exact h.goes_on_silently hact rfl (linesOf_notices ..) (.inl (h.reached.sound.calm.reading (by simp [hdue])))
  | none =>
    cases hr : l.reading with
    | true =>
      obtain ⟨rest, hlines⟩ := h.heard
      -- the input is at its end, or there is one more line
      cases rest with
      | nil =>
        rw [List.append_nil] at hlines
        have hact : l.act setup clocks .stop = some (_, _) := (if_pos ⟨hr, hdue⟩).trans (byPool_of_act rfl)
        exact h.goes_on_silently hact rfl (linesOf_notices ..) (.inr hlines)
      | cons line rest =>
        obtain ⟨m, hact, hreading⟩ :
            ∃ m, l.act setup clocks (.take line) = some (m, [.line line]) ∧ m.reading = true := by
          simp only [Live.act, hr, hdue, and_self, if_true]
          cases l.store.take? line with
          | none => exact ⟨l, rfl, hr⟩
          | some change => exact ⟨_, rfl, rfl⟩
        refine ⟨_, m, _, hact, rfl, ⟨rest, ?_⟩, .inl hreading⟩
        rw [linesOf_append, linesOf_line, List.append_assoc, List.singleton_append, hlines]
    | false =>
      have hread := hrest.resolve_left (by simp [hr])
      rcases h.mobile.goes_on h.reached.sound.pool clocks (h.told hr) hs with
        ⟨i, a, hw⟩ | ⟨a, ⟨pool, notices⟩, ha, hpool⟩
      · -- a handler that runs has still to look, or ends
        cases hf : l.found i with
        | none =>
          have hact : l.act setup clocks (.look i) =
              some ({ l with found := Function.update l.found i (some (l.store.get? a.key)) }, []) := by
            simp only [Live.act, hw, hf]
          exact h.goes_on_silently hact rfl rfl (.inr hread)
        | some found =>
          obtain ⟨pool, notices, hpool⟩ : ∃ pool notices, l.pool.act setup clocks
              (.finish i (.ofExcept (l.store.conclude a.key found))) = some (pool, notices) := by
            simp only [Pool.act, hw]
            exact ⟨_, _, rfl⟩
          have hact : l.act setup clocks (.finish i) =
              some ({ l with pool, found := Function.update l.found i none }, notices.map (.notice clocks.now)) := by
            simp only [Live.act, hw, hf]
            exact byPool_of_act hpool
          exact h.goes_on_silently hact rfl (linesOf_notices ..) (.inr hread)
      · have hput : ∀ key, a ≠ .put key := by
          rintro key rfl
          exact Pool.not_put_of_left h.idle hpool
        obtain ⟨hown, hq⟩ := isOwn_of_isRoutine ha hput
        have hact : l.act setup clocks (.pool a) = some (_, _) := (if_pos hown).trans (byPool_of_act hpool)
        exact h.goes_on_silently hact hq (linesOf_notices ..) (.inr hread)

end OnCourse

/-- A daemon that is on course may read the rest of its lines and drain. The induction is on the
rank, which every move that `goes_on` finds brings down. -/
theorem OnCourse.drains (h : OnCourse setup capacity lines l log) (hw : setup.workers = 1)
    (hlimit : setup.retryLimit = 0) (hids : ((events lines).map Event.id).Nodup)
    (hrest : l.reading = true ∨ linesOf log = lines) :
    ∃ more m later, run setup l more = some (m, later) ∧ (∀ move ∈ more, move.2.isResync = false) ∧
      linesOf (log ++ later) = lines ∧ m.pool.phase = .stopped := by
  induction hn : l.rank (lines.length - (linesOf log).length) using Nat.strong_induction_on generalizing l log with
  | _ n ih =>
    subst hn
    by_cases hs : l.pool.phase = .stopped
    · refine ⟨[], l, [], rfl, List.forall_mem_nil _, ?_, hs⟩
      rw [List.append_nil]
      exact hrest.resolve_left fun hr => by
        have := h.reached.sound.calm.heeds.running h.reached.sound.pool (h.reached.sound.calm.calm hr)
        exact this.2 hs
    · obtain ⟨move, m, seen, hact, hq, hheard, hrest'⟩ := h.goes_on ⟨0, .epoch⟩ hrest hs
      have hnext := h.act hact hq hheard
      have hlt := rank_lt (h.inLine hw hlimit hids) h.reached.sound hw hlimit hact hq
        (lines.length - (linesOf (log ++ seen)).length)
      have hlength := hheard.length_le
      rw [linesOf_append, List.length_append] at hlt hlength
      have hleft : lines.length - ((linesOf log).length + (linesOf seen).length) + (linesOf seen).length =
        lines.length - (linesOf log).length := by omega
      rw [hleft] at hlt
      obtain ⟨more, r, later, hrun, hquiet, hlines, hstopped⟩ :=
        ih _ (by rw [linesOf_append, List.length_append]; exact hlt) hnext hrest' rfl
      refine ⟨(⟨0, .epoch⟩, move) :: more, r, seen ++ later, ?_, ?_, ?_, hstopped⟩
      · exact takeSteps_cons_eq_some.mpr ⟨m, seen, later, hact, hrun, rfl⟩
      · exact List.forall_mem_cons.mpr ⟨hq, hquiet⟩
      · rw [← List.append_assoc]
        exact hlines

/-! ## Runs

Once a daemon has drained its records have the keys and the kinds of what was accepted, in the same
order. Their outcomes are the verdicts of the store on the keys: each record is the only one of its
key, and so the last one. -/

/-- Along every run without the resync that reads some of the lines the daemon is on course, and it
has made no more moves than it got nearer to the end. -/
theorem onCourse_of_run {moves : List (Clocks × Move)} (hw : setup.workers = 1) (hlimit : setup.retryLimit = 0)
    (hids : ((events lines).map Event.id).Nodup) (h : run setup (fresh capacity) moves = some (l, log))
    (hquiet : ∀ move ∈ moves, move.2.isResync = false) (hheard : linesOf log <+: lines) :
    OnCourse setup capacity lines l log ∧
      moves.length + l.rank (lines.length - (linesOf log).length) ≤ (fresh capacity).rank lines.length := by
  induction moves using List.reverseRecOn generalizing l log with
  | nil =>
    cases h
    exact ⟨onCourse_fresh setup capacity lines, Nat.le_of_eq (Nat.zero_add _)⟩
  | append_singleton moves move ih =>
    obtain ⟨k, earlier, new, hrun, hlast, rfl⟩ := takeSteps_append_eq_some.mp h
    obtain ⟨_, seen, _, hact, ⟨⟩, rfl⟩ := takeSteps_cons_eq_some.mp hlast
    obtain ⟨hmoves, hmove⟩ := List.forall_mem_append.mp hquiet
    have hq : move.2.isResync = false := hmove move (List.mem_singleton.mpr rfl)
    rw [List.append_nil] at hheard ⊢
    have hlength := hheard.length_le
    rw [linesOf_append] at hheard hlength ⊢
    obtain ⟨hcourse, hle⟩ := ih hrun hmoves ((List.prefix_append _ _).trans hheard)
    have hlt := rank_lt (hcourse.inLine hw hlimit hids) hcourse.reached.sound hw hlimit hact hq
      (lines.length - (linesOf earlier ++ linesOf seen).length)
    rw [List.length_append] at hlength hlt ⊢
    have hleft : lines.length - ((linesOf earlier).length + (linesOf seen).length) + (linesOf seen).length =
      lines.length - (linesOf earlier).length := by omega
    rw [hleft] at hlt
    refine ⟨hcourse.act hact hq (by rwa [linesOf_append]), ?_⟩
    rw [List.length_append, List.length_singleton]
    omega

namespace OnCourse

variable (h : OnCourse setup capacity lines l log) (hw : setup.workers = 1) (hlimit : setup.retryLimit = 0)
  (hids : ((events lines).map Event.id).Nodup) (hs : l.pool.phase = .stopped) (hread : linesOf log = lines)

include h hw hlimit hids hs hread

/-- There is a manual record for each line that counts, in the order of the lines. -/
theorem causes_eq : (Pool.records (noticesOf log)).map Record.cause = (events lines).map (·.id, Trigger.manual) := by
  have hline := h.inLine hw hlimit hids
  rw [hline.recorded_of_stopped h.reached.sound.pool (Nat.le_of_eq hw.symm) hs, Pool.acceptedIn_eq h.quiet,
    h.announced.manualIn_of_stopped h.reached.sound hs, (takeAll_eq _).1, hread, List.map_map]
  rfl

/-- The records are about the keys of the lines, in their order. -/
theorem keys_eq : (Pool.records (noticesOf log)).map Record.key = (events lines).map Event.id := by
  have hcauses := congrArg (List.map Prod.fst) (h.causes_eq hw hlimit hids hs hread)
  rwa [List.map_map, List.map_map] at hcauses

/-- What each record says follows from the object under its key: it is the only record of the key,
so it is the last one, and that is up to date. -/
theorem gist_of_mem {r : Record} (hr : r ∈ Pool.records (noticesOf log)) :
    r.gist = (r.key, .manual, 0, l.store.verdict r.key) := by
  have hkeys := h.keys_eq hw hlimit hids hs hread
  have htrigger : r.trigger = .manual := by
    have hcause : r.cause ∈ (Pool.records (noticesOf log)).map Record.cause := List.mem_map_of_mem hr
    rw [h.causes_eq hw hlimit hids hs hread] at hcause
    obtain ⟨e, -, he⟩ := List.mem_map.mp hcause
    exact (Prod.mk.inj he).2.symm
  have hcount : r.retryCount = 0 := by
    obtain ⟨steps, hrun⟩ := h.reached.run
    have hlaw := (Pool.tally_of_run hrun r.key).law
    rw [hlimit] at hlaw
    exact Nat.le_zero.mp (hlaw.le_limit r (List.mem_filter.mpr ⟨hr, by simp⟩))
  have houtcome : r.outcome = l.store.verdict r.key := by
    have hnamed : r.key ∈ (takeAll (linesOf log)).1 := by
      rw [(takeAll_eq _).1, hread, ← hkeys]
      exact List.mem_map_of_mem hr
    obtain ⟨r', hlast, ho⟩ := h.reached.last_record (Nat.le_of_eq hw.symm) hs hnamed
    obtain ⟨hr', hkey⟩ := List.mem_filter.mp (List.mem_of_getLast? hlast)
    have hsame : r' = r := List.inj_on_of_nodup_map (hkeys ▸ hids) hr' hr (by simpa using hkey)
    rw [← hsame, ho, hsame]
  rw [Record.gist, htrigger, hcount, houtcome]

/-- The records are those of the lines. -/
theorem gists_eq : (Pool.records (noticesOf log)).map Record.gist = (events lines).map Event.gist := by
  have hevent : ∀ e ∈ events lines, e.gist = (e.id, .manual, 0, l.store.verdict e.id) := by
    intro e he
    rw [h.reached.converging.store, hread, verdict_of_nodup hids he]
    rfl
  calc (Pool.records (noticesOf log)).map Record.gist
      = (Pool.records (noticesOf log)).map fun r => (r.key, Trigger.manual, 0, l.store.verdict r.key) :=
        List.map_congr_left fun r hr => h.gist_of_mem hw hlimit hids hs hread hr
    _ = ((Pool.records (noticesOf log)).map Record.key).map fun key => (key, Trigger.manual, 0, l.store.verdict key) :=
        by rw [List.map_map]; rfl
    _ = ((events lines).map Event.id).map fun key => (key, Trigger.manual, 0, l.store.verdict key) := by
        rw [h.keys_eq hw hlimit hids hs hread]
    _ = (events lines).map Event.gist := by
        rw [List.map_map]
        exact List.map_congr_left fun e he => (hevent e he).symm

/-- The ledger holds the newest of them. -/
theorem ledger_eq (hcapacity : 1 ≤ capacity) :
    l.pool.ledger.records.map Record.gist = ((events lines).map Event.gist).rtake capacity := by
  obtain ⟨steps, hrun⟩ := h.reached.run
  have hledger : l.pool.ledger = (Pool.records (noticesOf log)).foldl Ledger.record (Ledger.empty capacity) :=
    Pool.ledger_of_run hrun
  rw [hledger, Ledger.records_foldl, max_eq_left hcapacity, ← h.gists_eq hw hlimit hids hs hread, List.rtake,
    List.rtake, List.map_drop, List.length_map]

end OnCourse

/-! ## The start

Two things can keep a daemon from starting: settings that do not make sense, and a ledger without
room. The first are found by `Config.validate`, which lets the second pass. -/

theorem one_le_capacity_of_validate {config : Config} (h : config.validate = .ok ()) : 1 ≤ config.ledgerCapacity := by
  obtain ⟨-, hcapacity, -⟩ := Config.validate_eq_ok_iff.mp h
  exact Nat.one_le_iff_ne_zero.mpr hcapacity

/-- Settings that make sense start a daemon, if there is room for the ledger. -/
theorem start_of_validate {c : DaemonConfig} (wall : Timestamp) (h : c.config.validate = .ok ()) :
    start c wall = if Ledger.maxCapacity < c.config.ledgerCapacity then .error .outOfMemory
      else .ok (PoolBench.run (create (blueprint c).setup c.config.ledgerCapacity wall)) := by
  have hsetup : (blueprint c).setup? = .ok (blueprint c).setup := by
    show (c.config.validate >>= fun _ => Except.ok (blueprint c).setup) = _
    rw [h]
    rfl
  rw [start, hsetup]
  by_cases hroom : Ledger.maxCapacity < c.config.ledgerCapacity
  · simp only [Ledger.create?_eq_none_iff.mpr hroom, if_pos hroom]
    rfl
  · have hledger := Ledger.create?_eq_some_iff.mpr ⟨Nat.not_lt.mp hroom, rfl⟩
    simp only [hledger, if_neg hroom]
    rfl

/-- Settings that make sense start a daemon exactly if there is room for the ledger. -/
theorem starts_iff {c : DaemonConfig} {wall : Timestamp} (h : c.config.validate = .ok ()) :
    (∃ d, start c wall = .ok d) ↔ c.config.ledgerCapacity ≤ Ledger.maxCapacity := by
  rw [start_of_validate wall h, ← Nat.not_lt]
  split <;> simp [*]

/-- **The ledger tells the lines**: a daemon with one worker that forgives no failure reads an input
whose lines, as far as they count, are about different keys, while the resync keeps out of it. It
starts if there is room for its ledger. However its parts take turns, when it has read the input and
drained its ledger holds the records of the newest lines that count: one each, in the order of the
lines, set off manually and no retry, and failed exactly if the line puts an object that asks for
it. A line that does not count changes nothing, and is read like any other. The daemon can always go
on to read the rest and drain, and it cannot go on for ever. -/
theorem ledger_tells_lines (c : DaemonConfig) (wall : Timestamp) {input : String} {moves : List (Clocks × Move)}
    (hvalid : c.config.validate = .ok ()) (hw : c.config.workers = 1) (hlimit : c.config.retryLimit = 0)
    (hids : ((events (Daemon.lines input)).map Event.id).Nodup)
    (h : run (blueprint c).setup (fresh c.config.ledgerCapacity) moves = some (l, log))
    (hquiet : ∀ move ∈ moves, move.2.isResync = false) (hheard : linesOf log <+: Daemon.lines input) :
    ((∃ d, start c wall = .ok d) ↔ c.config.ledgerCapacity ≤ Ledger.maxCapacity) ∧
      (linesOf log = Daemon.lines input → l.pool.phase = .stopped →
        l.pool.ledger.records.map Record.gist =
          ((events (Daemon.lines input)).map Event.gist).rtake c.config.ledgerCapacity) ∧
      (∀ clocks line, l.reading = true → l.due = none → event? line = none →
        l.act (blueprint c).setup clocks (.take line) = some (l, [.line line])) ∧
      (l.reading = true ∨ linesOf log = Daemon.lines input →
        ∃ more m later, run (blueprint c).setup l more = some (m, later) ∧ (∀ move ∈ more, move.2.isResync = false) ∧
          linesOf (log ++ later) = Daemon.lines input ∧ m.pool.phase = .stopped) ∧
      moves.length ≤ 12 * (Daemon.lines input).length + 10 := by
  have hcapacity := one_le_capacity_of_validate hvalid
  obtain ⟨hcourse, hle⟩ := onCourse_of_run hw hlimit hids h hquiet hheard
  refine ⟨starts_iff hvalid, fun hread hs => hcourse.ledger_eq hw hlimit hids hs hread hcapacity,
    fun clocks line hr hd hline => ?_, hcourse.drains hw hlimit hids, ?_⟩
  · have htidy : l.store.Tidy := by
      rw [hcourse.reached.converging.store]
      exact (takeAll_eq _).2.1
    have htake : l.store.take? line = none := by
      rcases htidy.take?_cases line with ⟨e, t, he, -⟩ | ⟨-, htake⟩
      · rw [hline] at he
        cases he
      · exact htake
    simp only [act, hr, hd, htake, and_self, if_true]
  · have hfresh : (fresh c.config.ledgerCapacity).rank (Daemon.lines input).length =
      12 * (Daemon.lines input).length + 10 := rfl
    omega

/-- Two lines that count, and two that do not: one is blank, one puts an object without a tenant. -/
def fourLines : List String :=
  [(Event.delete "a").text, " ", (Event.upsert "b" "t" (.object [("fail", .bool true)])).text,
    (Event.upsert "c" "" .null).text]

/-- The lines as an input. -/
def fourLineInput : String := String.intercalate "\n" fourLines

/-- The lines are read while the first key is handled, and the signal to stop comes before the
attempt on the second. -/
def readMeanwhile : List Move :=
  let read (i : Nat) : Move := .take (fourLines.getD i "")
  [read 0, .tell, .pool .run, .pool (.work 0), .pool (.work 0), .look 0, read 1, read 2, .tell, .finish 0,
    .pool (.work 0), .pool (.work 0), read 3, .stop, .pool .supervise, .pool (.work 0), .pool (.work 0),
    .pool .endResync, .pool .supervise, .look 0, .finish 0, .pool (.work 0), .pool (.work 0), .pool (.work 0),
    .pool (.work 0), .pool .supervise, .pool .supervise]

/-- A daemon that keeps the last record only. -/
def forgetful : DaemonConfig :=
  { name := "forgetful"
    dumpLedger := true
    config := { retryLimit := 0, resync := some (Span.ofMillis 100), ledgerCapacity := 1 } }

theorem ledger_tells_lines_read_meanwhile :
    ∃ l log, run (blueprint forgetful).setup (fresh 1) (readMeanwhile.map (⟨0, .epoch⟩, ·)) = some (l, log) ∧
      linesOf log = Daemon.lines fourLineInput ∧ l.pool.phase = .stopped ∧
      l.pool.ledger.records.map Record.gist = [("b", .manual, 0, .failureFinal "object b requested failure")] := by
  generalize hr : run _ _ _ = r
  have hseen : r.map (fun r => (r.1.pool.phase, linesOf r.2)) = some (.stopped, Daemon.lines fourLineInput) := by
    rw [← hr]
    decide +kernel
  obtain ⟨⟨l, log⟩, rfl, hmap⟩ := Option.map_eq_some_iff.mp hseen
  obtain ⟨hstopped, hread⟩ := Prod.mk.inj hmap
  have hgists : (events (Daemon.lines fourLineInput)).map Event.gist =
      [("a", .manual, 0, .success), ("b", .manual, 0, .failureFinal "object b requested failure")] := by
    decide +kernel
  have hids : (events (Daemon.lines fourLineInput)).map Event.id = ["a", "b"] := by
    have hfirst := congrArg (List.map Prod.fst) hgists
    rwa [List.map_map] at hfirst
  have hheard : linesOf log <+: Daemon.lines fourLineInput := ⟨[], (List.append_nil _).trans hread⟩
  obtain ⟨-, hledger, -⟩ :=
    ledger_tells_lines forgetful .epoch rfl rfl rfl (by rw [hids]; decide) hr (by decide) hheard
  refine ⟨l, log, rfl, hread, hstopped, (hledger hread hstopped).trans ?_⟩
  rw [hgists]
  rfl

/-- Settings that make sense, with a ledger that nothing has room for. -/
def roomless : Environment := fun name =>
  if name = "SYNCER_LEDGER_CAPACITY" then some "18446744073709551615".toUTF8
  else if name = "SYNCER_RETRY_LIMIT" then some "0".toUTF8
  else none

/-- A line that puts an object. -/
def oneLineInput : String := (Event.upsert "a" "t" .null).text ++ "\n"

/-- The settings are taken, but the daemon does not start, and prints no record of the line. -/
theorem ledger_without_room :
    ∃ c, DaemonConfig.ofEnvironment roomless = .ok c ∧ c.dumpLedger = true ∧ c.config.workers = 1 ∧
      c.config.retryLimit = 0 ∧ 1 ≤ c.config.ledgerCapacity ∧
      ((events (Daemon.lines oneLineInput)).map Event.gist).rtake c.config.ledgerCapacity =
        [("a", .manual, 0, .success)] ∧
      (Daemon.run roomless .epoch oneLineInput).records = none := by
  refine ⟨⟨"syncer-daemon", true, { retryLimit := 0, ledgerCapacity := 18446744073709551615 }⟩, ?_, rfl, rfl, rfl,
    by decide, ?_, ?_⟩
  · rfl
  · decide +kernel
  · rfl

end Daemon.Live

end ControlLoop
