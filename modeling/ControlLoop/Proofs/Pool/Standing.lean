import ControlLoop.Proofs.Pool.Run

/-!
# How things stand with a key

What a pool does about one key depends on little of it: where the key is, when a timer puts it in,
its account, what sets its next delivery off, and whether the queue is shut. `Standing` gathers
this, and `Standing.Step` lists all that can happen to it. Other keys do not come into it, so a
statement about a key is shown by an induction over the steps that concern it (`Standing.Path`),
whatever else goes on in the pool between them.

The clauses of `Standing.Step` are those of `Pool.Step`, one for each outcome that is about a key,
with the queue and the tables cut down to what concerns the key. What a step of a whole pool makes
of one of its keys is a `Standing.Turn`: nothing, or one of these clauses.
-/

namespace ControlLoop.Pool

/-- Where a key is. -/
inductive Place where
  /-- nowhere: nothing is asked of it -/
  | resting
  /-- in the queue -/
  | waiting
  /-- with a worker; `again` if it came again meanwhile -/
  | held (stage : Stage) (again : Bool)

/-- The key is put in. -/
def Place.insert : Place → Place
  | resting | waiting => waiting
  | held stage _ => held stage true

/-- How things stand with a key: all that decides what an attempt on it will be, when it is made,
and what becomes of it. -/
structure Standing where
  /-- where it is -/
  place : Place
  /-- when a timer puts it in -/
  delayed : Option Moment
  /-- its account, if it has failed since its last success -/
  account : Option Account
  /-- what sets its next delivery off -/
  kind : Option Trigger
  /-- is the queue shut? -/
  closed : Bool

namespace Standing

/-- Nothing has been asked of the key yet. -/
def untouched : Standing := ⟨.resting, none, none, none, false⟩

/-- The failures of the key since its last success. -/
def failures (s : Standing) : Nat :=
  match s.account with
  | some account => account.failures
  | none => 0

/-- All that can happen to a key, with what an onlooker sees of it. The names of the cases are those
of the outcomes of a step of the pool, as far as they are about a key. -/
inductive Step (setup : Setup) (key : Key) (clocks : Clocks) (s : Standing) : Option Notice → Standing → Prop where
  -- triggers
  | accept {kind} (ho : s.closed = false) :
    Step setup key clocks s (some (.accepted key kind))
      { s with place := s.place.insert, kind := some (outweigh kind s.kind) }
  | refuse (hc : s.closed = true) : Step setup key clocks s (some (.refused key)) s
  -- an attempt
  | deliver (hp : s.place = .waiting) :
    Step setup key clocks s (some (.delivered key (s.kind.getD .auto)))
      { s with place := .held (.holding key (s.kind.getD .auto)) false, kind := none }
  | begin {kind again} (hp : s.place = .held (.holding key kind) again) :
    Step setup key clocks s (some (.began key))
      { s with place := .held (.handling ⟨key, kind, s.failures, clocks.wall, clocks.now⟩) again }
  | succeed {a again} (hp : s.place = .held (.handling a) again) :
    Step setup key clocks s none
      { s with place := .held (.settled a (a.elapsed clocks.now) .success) again, account := none }
  | fail {a again error} (hp : s.place = .held (.handling a) again) :
    Step setup key clocks s none
      { s with
        place := .held (.counting a (a.elapsed clocks.now) error (s.failures + 1)) again,
        account := some ⟨s.failures + 1, error⟩ }
  -- after a failure
  | drop {a d e f again} (hp : s.place = .held (.counting a d e f) again) (hf : setup.retryLimit < f) :
    Step setup key clocks s none
      { s with place := .held (.settled a d (.failureFinal e)) again, account := none }
  | keep {a d e f again} (hp : s.place = .held (.counting a d e f) again) (hf : f ≤ setup.retryLimit) :
    Step setup key clocks s none
      { s with place := .held (.retrying a d e f) again, kind := some (s.kind.getD a.trigger) }
  | retryAtOnce {a d e f again} (hp : s.place = .held (.retrying a d e f) again) (ho : s.closed = false)
      (hd : (setup.backoff.delay f).nanos = 0) :
    Step setup key clocks s none { s with place := .held (.settled a d (.failure e)) true }
  | retryCovered {a d e f again m} (hp : s.place = .held (.retrying a d e f) again) (ho : s.closed = false)
      (hd : (setup.backoff.delay f).nanos ≠ 0) (hm : s.delayed = some m)
      (hle : m ≤ clocks.now + (setup.backoff.delay f).nanos) :
    Step setup key clocks s none { s with place := .held (.settled a d (.failure e)) again }
  | retryLater {a d e f again} (hp : s.place = .held (.retrying a d e f) again) (ho : s.closed = false)
      (hd : (setup.backoff.delay f).nanos ≠ 0)
      (hm : ∀ m, s.delayed = some m → clocks.now + (setup.backoff.delay f).nanos < m) :
    Step setup key clocks s (some (.delayed key (clocks.now + (setup.backoff.delay f).nanos)))
      { s with
        place := .held (.settled a d (.failure e)) again,
        delayed := some (clocks.now + (setup.backoff.delay f).nanos) }
  | retryCancelled {a d e f again} (hp : s.place = .held (.retrying a d e f) again) (hc : s.closed = true) :
    Step setup key clocks s none
      { s with place := .held (.settled a d (.failureFinal e)) again, account := none }
  -- the end of an attempt
  | record {a d o again n} (hp : s.place = .held (.settled a d o) again) (hk : a.key = key) :
    Step setup key clocks s (some (.recorded (a.record (Uuid.ofAttempt n) d o)))
      { s with place := .held (.releasing key) again }
  | release {again} (hp : s.place = .held (.releasing key) again) :
    Step setup key clocks s none { s with place := if again then .waiting else .resting }
  -- timers
  | fire {m} (ho : s.closed = false) (hm : s.delayed = some m) (hle : m ≤ clocks.now) :
    Step setup key clocks s (some (.released key)) { s with place := s.place.insert, delayed := none }
  -- the end of the pool
  | shut (ho : s.closed = false) : Step setup key clocks s none { s with delayed := none, closed := true }
  | abandon {account n} (hc : s.closed = true) (hp : ∀ stage again, s.place ≠ .held stage again)
      (ha : s.account = some account) :
    Step setup key clocks s
      (some (.recorded ⟨Uuid.ofAttempt n, key, s.kind.getD .auto, clocks.wall, Span.zero,
        .failureFinal account.lastError, account.failures⟩))
      { s with account := none, kind := none }
  | forget (hc : s.closed = true) (hp : ∀ stage again, s.place ≠ .held stage again) :
    Step setup key clocks s none { s with kind := none }

/-- One thing after the other happens to a key; an onlooker takes down a log of it. What every step
keeps is kept along a path, by induction on it. -/
inductive Path (setup : Setup) (key : Key) (s : Standing) : Log → Standing → Prop where
  | refl : Path setup key s [] s
  | step {log t u clocks o} (h : Path setup key s log t) (hs : Step setup key clocks t o u) :
    Path setup key s (log ++ o.toList.map (clocks.now, ·)) u

namespace Path

variable {setup : Setup} {key : Key} {s t u : Standing} {log earlier later : Log}

/-- A path may be followed by another one; the logs are put one behind the other. -/
theorem trans (h₁ : Path setup key s earlier t) (h₂ : Path setup key t later u) :
    Path setup key s (earlier ++ later) u := by
  induction h₂ with
  | refl =>
    rw [List.append_nil]
    exact h₁
  | step _ hs ih =>
    rw [← List.append_assoc]
    exact ih.step hs

/-- One thing that happens is a path, and its notice is the log. -/
theorem single {clocks : Clocks} {o : Option Notice} (hs : Step setup key clocks s o t) :
    Path setup key s (o.toList.map (clocks.now, ·)) t :=
  Path.refl.step hs

/-- What an onlooker has taken down happened in a step. -/
theorem exists_step {e : Moment × Notice} (h : Path setup key s log u) :
    ∀ {earlier later : Log}, log = earlier ++ e :: later →
      ∃ t clocks t', Path setup key s earlier t ∧ Step setup key clocks t (some e.2) t' ∧ e.1 = clocks.now ∧
        Path setup key t' later u := by
  induction h with
  | refl => simp
  | @step log t u clocks o hpath hs ih =>
    intro earlier later heq
    -- an induction over the path, whose last step either says nothing or adds the notice at the end
    cases o with
    | none =>
      rw [Option.toList_none, List.map_nil, List.append_nil] at heq
      obtain ⟨t₁, clocks₁, t₂, h₁, hs₁, hnow, h₂⟩ := ih heq
      have h₂ := h₂.step hs
      rw [Option.toList_none, List.map_nil, List.append_nil] at h₂
      exact ⟨t₁, clocks₁, t₂, h₁, hs₁, hnow, h₂⟩
    | some n =>
      rw [Option.toList_some, List.map_singleton] at heq
      -- the notice of the last step is the one in question, or stands behind it
      rcases List.eq_nil_or_concat later with rfl | ⟨later, e', rfl⟩
      · obtain ⟨rfl, hlast⟩ := List.append_inj' heq rfl
        cases hlast
        exact ⟨t, clocks, u, hpath, hs, rfl, .refl⟩
      · rw [List.concat_eq_append, ← List.cons_append, ← List.append_assoc] at heq
        obtain ⟨heq, hlast⟩ := List.append_inj' heq rfl
        obtain ⟨t₁, clocks₁, t₂, h₁, hs₁, hnow, h₂⟩ := ih heq
        have h₂ := h₂.step hs
        rw [Option.toList_some, List.map_singleton, hlast] at h₂
        rw [List.concat_eq_append]
        exact ⟨t₁, clocks₁, t₂, h₁, hs₁, hnow, h₂⟩

end Path

/-- What a step of the pool makes of a key, with the notices about it: nothing, or one thing that
can happen to it. -/
inductive Turn (setup : Setup) (key : Key) (clocks : Clocks) (s : Standing) : List Notice → Standing → Prop where
  /-- nothing -/
  | idle : Turn setup key clocks s [] s
  /-- one of the things that can happen to it -/
  | step {o t} (hs : Step setup key clocks s o t) : Turn setup key clocks s o.toList t

theorem Turn.path {setup : Setup} {key : Key} {clocks : Clocks} {s t : Standing} {notices : List Notice}
    (h : Turn setup key clocks s notices t) : Path setup key s (notices.map (clocks.now, ·)) t := by
  cases h with
  | idle => exact .refl
  | step hs => exact .single hs

end Standing

end ControlLoop.Pool
