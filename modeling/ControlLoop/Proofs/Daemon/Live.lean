import Mathlib.Logic.Function.Basic
import ControlLoop.Proofs.Daemon.Tenant
import ControlLoop.Proofs.Pool.Story

/-!
# A daemon at work

The daemon on any number of processors: its input, the handlers, and whatever goes on in the pool
(workers, timers, resync, supervisor) take turns in any order. What is not done under one lock is
done in several moves. A line is first applied to the objects and its key is triggered later; a
handler first looks at the object and concludes later. The signal to stop is given between two
lines, when the input ends or is broken off.

`Live.Turn` lists what a move can do. Along a run the pool takes a run of its own (`Turn.run`), so
all that holds of the runs of a pool holds of this one.
-/

namespace ControlLoop

/-- Does the pool take the step by itself? Keys may also be triggered on its own account at any
time. -/
def Pool.Action.isOwn : Pool.Action → Bool
  | .trigger _ kind => kind = .auto
  | .run | .work _ | .fire .. | .tick _ | .put _ | .endResync | .supervise => true
  | .stop | .finish .. => false

namespace Daemon

/-- A daemon at work: its pool, its objects, and how far it has come with a line and with each of
its handlers. -/
structure Live where
  /-- its pool -/
  pool : Pool
  /-- its objects -/
  store : TenantStore := .empty
  /-- does it read lines? -/
  reading : Bool := true
  /-- the key that the last line has named, if it has not been triggered yet -/
  due : Option Key := none
  /-- what the handler of each worker has found, once it has looked -/
  found : Nat → Option (Option TenantObject) := fun _ => none

namespace Live

/-- A daemon that has not begun. -/
def fresh (ledgerCapacity : Nat) : Live := { pool := .fresh ledgerCapacity }

/-- A move of a daemon. Each is what is done under one lock, so that all that can happen between two
of them does. -/
inductive Move where
  /-- it applies a line -/
  | take (line : String)
  /-- it triggers the key that the line has named -/
  | tell
  /-- it stops reading, and gives the pool the signal to stop -/
  | stop
  /-- the handler of a worker looks at the object -/
  | look (i : Nat)
  /-- the handler of a worker ends -/
  | finish (i : Nat)
  /-- the pool takes a step by itself -/
  | pool (a : Pool.Action)

/-- What an onlooker takes down. -/
inductive Seen where
  /-- a line was read -/
  | line (text : String)
  /-- the pool did something -/
  | notice (t : Moment) (n : Notice)

/-- The lines that were read. -/
def linesOf (log : List Seen) : List String :=
  log.filterMap fun
    | .line text => some text
    | .notice .. => none

/-- What the pool did. -/
def noticesOf (log : List Seen) : Pool.Log :=
  log.filterMap fun
    | .line _ => none
    | .notice t n => some (t, n)

/-! ## Moves

`act` says when a move can be made and what it does; `Turn` lists what may come of one, so that an
invariant of the daemon is proved by cases on what has happened. -/

/-- The pool takes a step. -/
def byPool (setup : Pool.Setup) (clocks : Clocks) (l : Live) (a : Pool.Action) : Option (Live × List Seen) :=
  (l.pool.act setup clocks a).map fun (pool, notices) => ({ l with pool }, notices.map (.notice clocks.now))

/-- Makes a move, if it is possible. -/
def act (setup : Pool.Setup) (clocks : Clocks) (l : Live) : Move → Option (Live × List Seen)
  | .take line =>
    if l.reading ∧ l.due = none then
      match l.store.take? line with
      | some (key, store) => some ({ l with store, due := some key }, [.line line])
      | none => some (l, [.line line])
    else none
  | .tell =>
    match l.due with
    | some key => byPool setup clocks { l with due := none } (.trigger key .manual)
    | none => none
  | .stop => if l.reading ∧ l.due = none then byPool setup clocks { l with reading := false } .stop else none
  | .look i =>
    match l.pool.workers[i]?, l.found i with
    | some (.handling a), none =>
      some ({ l with found := Function.update l.found i (some (l.store.get? a.key)) }, [])
    | _, _ => none
  | .finish i =>
    match l.pool.workers[i]?, l.found i with
    | some (.handling a), some found =>
      byPool setup clocks { l with found := Function.update l.found i none }
        (.finish i (.ofExcept (l.store.conclude a.key found)))
    | _, _ => none
  | .pool a => if a.isOwn then byPool setup clocks l a else none

/-- Makes moves one after the other, if each is possible; the log is what an onlooker has seen,
lines and notices in their order. -/
def run (setup : Pool.Setup) : Live → List (Clocks × Move) → Option (Live × List Seen) :=
  takeSteps fun l (move : Clocks × Move) => l.act setup move.1 move.2

/-- What a move can do. -/
inductive Turn (setup : Pool.Setup) (clocks : Clocks) (l : Live) : Live → List Seen → Prop where
  -- the input
  | passed {line} (hd : l.due = none) (ht : l.store.take? line = none) : Turn setup clocks l l [.line line]
  | took {line key store} (hr : l.reading = true) (hd : l.due = none) (ht : l.store.take? line = some (key, store)) :
    Turn setup clocks l { l with store, due := some key } [.line line]
  | told {key pool notices} (hd : l.due = some key)
      (hact : l.pool.act setup clocks (.trigger key .manual) = some (pool, notices)) :
    Turn setup clocks l { l with pool, due := none } (notices.map (.notice clocks.now))
  | stopped {pool notices} (hd : l.due = none) (hact : l.pool.act setup clocks .stop = some (pool, notices)) :
    Turn setup clocks l { l with pool, reading := false } (notices.map (.notice clocks.now))
  -- the handlers
  | looked {i a} (hw : l.pool.workers[i]? = some (.handling a)) :
    Turn setup clocks l { l with found := Function.update l.found i (some (l.store.get? a.key)) } []
  | finished {i a found pool notices} (hw : l.pool.workers[i]? = some (.handling a)) (hf : l.found i = some found)
      (hact : l.pool.act setup clocks (.finish i (.ofExcept (l.store.conclude a.key found))) = some (pool, notices)) :
    Turn setup clocks l { l with pool, found := Function.update l.found i none } (notices.map (.notice clocks.now))
  -- the pool
  | worked {a pool notices} (ha : a.isOwn = true) (hact : l.pool.act setup clocks a = some (pool, notices)) :
    Turn setup clocks l { l with pool } (notices.map (.notice clocks.now))

variable {setup : Pool.Setup} {clocks : Clocks} {l m : Live} {move : Move} {seen log later : List Seen}

/-- A step of the pool changes nothing else. -/
theorem byPool_eq_some {a : Pool.Action} (h : l.byPool setup clocks a = some (m, seen)) :
    ∃ pool notices, l.pool.act setup clocks a = some (pool, notices) ∧ m = { l with pool } ∧
      seen = notices.map (.notice clocks.now) := by
  obtain ⟨⟨pool, notices⟩, hact, heq⟩ := Option.map_eq_some_iff.mp h
  cases heq
  exact ⟨pool, notices, hact, rfl, rfl⟩

/-- `Turn` says all that a move can do, with the conditions under which it can: later proofs go by
its cases, and never look at `act` again. -/
theorem turn_of_act (h : l.act setup clocks move = some (m, seen)) : Turn setup clocks l m seen := by
  cases move with
  | take line =>
    obtain ⟨⟨hr, hd⟩, h⟩ := Option.ite_none_right_eq_some.mp h
    split at h
    · next ht =>
      cases h
      exact .took hr hd ht
    · next ht =>
      cases h
      exact .passed hd ht
  | tell =>
    rw [act] at h
    split at h
    · next key hd =>
      obtain ⟨pool, notices, hact, rfl, rfl⟩ := byPool_eq_some h
      exact .told hd hact
    · cases h
  | stop =>
    obtain ⟨⟨-, hd⟩, h⟩ := Option.ite_none_right_eq_some.mp h
    obtain ⟨pool, notices, hact, rfl, rfl⟩ := byPool_eq_some h
    exact .stopped hd hact
  | look i =>
    rw [act] at h
    split at h
    · next hw _ =>
      cases h
      exact .looked hw
    · cases h
  | finish i =>
    rw [act] at h
    split at h
    · next hw hf =>
      obtain ⟨pool, notices, hact, rfl, rfl⟩ := byPool_eq_some h
      exact .finished hw hf hact
    · cases h
  | pool a =>
    obtain ⟨ha, h⟩ := Option.ite_none_right_eq_some.mp h
    obtain ⟨pool, notices, hact, rfl, rfl⟩ := byPool_eq_some h
    exact .worked ha hact

/-! ## The run of the pool

A run of the daemon contains one of its pool. The moves in which nothing is done to the pool are
left out, and so are the lines in the log. -/

@[simp] theorem linesOf_append (log later : List Seen) : linesOf (log ++ later) = linesOf log ++ linesOf later :=
  List.filterMap_append

@[simp] theorem noticesOf_append (log later : List Seen) :
    noticesOf (log ++ later) = noticesOf log ++ noticesOf later :=
  List.filterMap_append

@[simp] theorem linesOf_line (line : String) : linesOf [.line line] = [line] := rfl

@[simp] theorem noticesOf_line (line : String) : noticesOf [.line line] = [] := rfl

@[simp] theorem linesOf_notices (t : Moment) (notices : List Notice) : linesOf (notices.map (.notice t)) = [] := by
  simp [linesOf]

@[simp] theorem noticesOf_notices (t : Moment) (notices : List Notice) :
    noticesOf (notices.map (.notice t)) = notices.map (t, ·) := by
  simp [noticesOf, List.filterMap_map]

/-- The pool takes a step, or nothing is done to it. In the first case what is taken down is what
the pool did. -/
theorem Turn.pool (h : Turn setup clocks l m seen) :
    (∃ a notices, l.pool.act setup clocks a = some (m.pool, notices) ∧ noticesOf seen = notices.map (clocks.now, ·)) ∨
      m.pool = l.pool ∧ noticesOf seen = [] := by
  cases h with
  | passed | took | looked => exact .inr ⟨rfl, rfl⟩
  | told _ hact | stopped _ hact | finished _ _ hact | worked _ hact =>
    exact .inl ⟨_, _, hact, noticesOf_notices ..⟩

/-- What the pool does along a run is a run of the pool, and goes on as one. -/
theorem Turn.run {capacity : Nat} {steps : List (Clocks × Pool.Action)} (h : Turn setup clocks l m seen)
    (hrun : Pool.run setup (.fresh capacity) steps = some (l.pool, noticesOf log)) :
    ∃ more, Pool.run setup (.fresh capacity) more = some (m.pool, noticesOf (log ++ seen)) := by
  rw [noticesOf_append]
  rcases h.pool with ⟨a, notices, hstep, hseen⟩ | ⟨hpool, hseen⟩
  · rw [hseen]
    exact ⟨_, Pool.run_concat_eq_some.mpr ⟨_, _, _, hrun, hstep, rfl⟩⟩
  · rw [hpool, hseen, List.append_nil]
    exact ⟨steps, hrun⟩

end Live

end Daemon

end ControlLoop
