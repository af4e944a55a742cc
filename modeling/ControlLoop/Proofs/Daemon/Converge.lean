import ControlLoop.Proofs.Daemon.Sound
import ControlLoop.Proofs.Pool.Verdict

/-!
# The daemon converges

Whatever lines a daemon reads and however its parts take turns, when it has drained the last record
of each key that a line has named agrees with the object that is left under the key, if there is
one. On the way an attempt may end on an object that has been changed meanwhile, and be recorded so.
It is not the last one then: the objects are changed before the key is triggered, a key that is
triggered during an attempt is handled again, and when the retries are cut off the record quotes an
attempt that was up to date.

`Live.Converging` says this of every moment: a key that was named is due, or up to date with the
object that is there now (`Pool.Place.UpToDate`).
-/

namespace ControlLoop

/-- How the last attempt on a key is to end, as the objects are. -/
def TenantStore.verdict (s : TenantStore) (key : Key) : Outcome :=
  match s.get? key with
  | some o => if o.asksForFailure then .failureFinal ("object " ++ key ++ " requested failure") else .success
  | none => .success

/-- The verdict is what a handler would report that looks now. -/
theorem TenantStore.verdict_eq (s : TenantStore) (key : Key) : s.verdict key = .final (fault? key (s.get? key)) := by
  unfold verdict fault?
  cases s.get? key with
  | none => rfl
  | some o => cases ho : o.asksForFailure <;> simp [ho, Outcome.final]

namespace Daemon.Live

open TenantStore

variable {setup : Pool.Setup} {clocks : Clocks} {l m : Live} {pool : Pool} {a : Pool.Action} {notices : List Notice}
  {seen log : List Seen}

/-- The objects are those that the lines leave, and each key that a line has named is due or up to
date. Of a key that is neither handled nor waiting, to be up to date is to have a last record that
agrees with the object. -/
structure Converging (l : Live) (log : List Seen) : Prop where
  /-- the objects -/
  store : l.store = (takeAll (linesOf log)).2
  /-- the keys -/
  named : ∀ key ∈ (takeAll (linesOf log)).1, l.due = some key ∨
    (l.pool.place key).UpToDate (fault? key (l.store.get? key)) (Pool.recordsOf key (noticesOf log))

/-- A handler that ends on a key that is neither due nor marked says what is to be said about the
object: what it has found is as good as what it would find now. -/
theorem Sound.error?_of_finish {i : Nat} {b : Attempt} {found : Option TenantObject} (h : l.Sound setup)
    (hw : l.pool.workers[i]? = some (.handling b)) (hf : l.found i = some found) (hd : l.due ≠ some b.key)
    (hm : b.key ∉ l.pool.queue.dirty) :
    (Result.ofExcept (l.store.conclude b.key found)).error? = fault? b.key (l.store.get? b.key) := by
  rw [error?_conclude h.ready]
  exact (h.sighted.fresh i b found hw hf).resolve_right (not_or.mpr ⟨hm, hd⟩)

namespace Converging

/-- The pool takes a step, and a handler that ends in it says what is to be said. A key that is up
to date stays so, unless it was due. -/
theorem act (h : l.Converging log) (hl : l.Sound setup)
    (hq : ∀ key, (l.pool.standing key).Quotes (Pool.recordsOf key (noticesOf log)))
    (hact : l.pool.act setup clocks a = some (pool, notices))
    (hend : ∀ i b result, a = .finish i result → l.pool.workers[i]? = some (.handling b) → l.due ≠ some b.key →
      b.key ∉ l.pool.queue.dirty → result.error? = fault? b.key (l.store.get? b.key)) :
    ({ l with pool } : Live).Converging (log ++ notices.map (.notice clocks.now)) := by
  constructor
  · rw [linesOf_append, linesOf_notices, List.append_nil]
    exact h.store
  · intro key hkey
    rw [linesOf_append, linesOf_notices, List.append_nil] at hkey
    rw [noticesOf_append, noticesOf_notices]
    by_cases hd : l.due = some key
    · exact .inl hd
    · refine .inr (Pool.upToDate_of_act hl.pool hact (hq key) ((h.named key hkey).resolve_left hd) ?_)
      rintro i b result rfl hw rfl hm
      exact hend i b result rfl hw hd hm

/-- Every move keeps a daemon converging. A line makes the key due that it names and leaves the
other objects alone; a key that is due comes up to date when it is triggered; all else is a step of
the pool. -/
theorem turn (h : l.Converging log) (hl : l.Sound setup)
    (hq : ∀ key, (l.pool.standing key).Quotes (Pool.recordsOf key (noticesOf log)))
    (ht : Turn setup clocks l m seen) : m.Converging (log ++ seen) := by
  cases ht with
  | @passed line hd ht =>
    have hsame : takeAll (linesOf (log ++ [.line line])) = takeAll (linesOf log) := by
      rw [linesOf_append, linesOf_line, takeAll_concat_of_none (h.store ▸ ht)]
    refine ⟨hsame ▸ h.store, ?_⟩
    rw [hsame, noticesOf_append, noticesOf_line, List.append_nil]
    exact h.named
  | @took line key store hr hd ht =>
    have htaken : takeAll (linesOf (log ++ [.line line])) = ((takeAll (linesOf log)).1 ++ [key], store) := by
      rw [linesOf_append, linesOf_line, takeAll_concat_of_some (h.store ▸ ht)]
    refine ⟨by rw [htaken], ?_⟩
    rw [htaken, noticesOf_append, noticesOf_line, List.append_nil]
    intro other hother
    -- the key that the line names is due from now on, whatever it was before
    by_cases hk : other = key
    · exact .inl (congrArg some hk.symm)
    · have hold : other ∈ (takeAll (linesOf log)).1 := by simpa [hk] using hother
      have hget : store.get? other = l.store.get? other := get?_take? ht hk
      refine .inr ?_
      show (l.pool.place other).UpToDate (fault? other (store.get? other)) _
      rw [hget]
      exact (h.named other hold).resolve_left (by simp [hd])
  | @told key pool notices hd hact =>
    have hkept := h.act hl hq hact fun i b result heq => by cases heq
    refine ⟨hkept.store, fun other hother => .inr ?_⟩
    by_cases hk : other = key
    · -- the key that was due has been put in
      subst hk
      obtain rfl := hl.calm.accept hl.pool hd hact
      have hplace : (l.pool.accept other .manual).place other = (l.pool.place other).insert :=
        congrArg Pool.Standing.place (hl.pool.standing_accept_self .manual)
      show ((l.pool.accept other .manual).place other).UpToDate _ _
      rw [hplace]
      exact .insert ..
    · exact (hkept.named other hother).resolve_left fun hdue => hk (Option.some.inj (hdue.symm.trans hd))
  | stopped hd hact =>
    have hkept := h.act hl hq hact fun i b result heq => by cases heq
    exact ⟨hkept.store, hkept.named⟩
  | looked hw =>
    rw [List.append_nil]
    exact ⟨h.store, h.named⟩
  | @finished i a found pool notices hw hf hact =>
    have hkept := h.act hl hq hact fun j b result heq hb hd hm => by
      cases heq
      cases hw.symm.trans hb
      exact hl.error?_of_finish hw hf hd hm
    exact ⟨hkept.store, hkept.named⟩
  | worked ha hact =>
    refine h.act hl hq hact ?_
    rintro i b result rfl
    cases ha

end Converging

/-- What is so of a daemon after any run: it is sound, its pool has come there by a run of its own,
and it is converging. -/
structure Reached (setup : Pool.Setup) (capacity : Nat) (l : Live) (log : List Seen) : Prop where
  /-- its pool has taken a run of its own -/
  run : ∃ steps, Pool.run setup (.fresh capacity) steps = some (l.pool, noticesOf log)
  /-- it is sound -/
  sound : l.Sound setup
  /-- it converges -/
  converging : l.Converging log

theorem reached_fresh (setup : Pool.Setup) (capacity : Nat) : Reached setup capacity (fresh capacity) [] where
  run := ⟨[], rfl⟩
  sound := sound_fresh setup capacity
  converging := ⟨rfl, by simp [takeAll, linesOf]⟩

theorem Reached.act {capacity : Nat} {move : Move} (h : Reached setup capacity l log)
    (hact : l.act setup clocks move = some (m, seen)) : Reached setup capacity m (log ++ seen) := by
  have hturn := turn_of_act hact
  obtain ⟨steps, hrun⟩ := h.run
  exact ⟨hturn.run hrun, sound_of_turn h.sound hturn, h.converging.turn h.sound (Pool.quotes_of_run hrun) hturn⟩

/-- By induction it is so of every daemon that can be reached. -/
theorem reached_of_run {capacity : Nat} {moves : List (Clocks × Move)}
    (h : run setup (fresh capacity) moves = some (l, log)) : Reached setup capacity l log :=
  takeSteps_induct (Reached setup capacity) (fun hl hact => hl.act hact) (reached_fresh setup capacity) h

/-- Of a daemon that has drained, the last record of a key that was named is up to date: nothing is
due any more, and no key is in the hands of a worker, in the line, or waiting for a retry. -/
theorem Reached.last_record {capacity : Nat} {key : Key} (h : Reached setup capacity l log) (hw : 1 ≤ setup.workers)
    (hs : l.pool.phase = .stopped) (hkey : key ∈ (takeAll (linesOf log)).1) :
    ∃ r, (Pool.recordsOf key (noticesOf log)).getLast? = some r ∧ r.outcome = l.store.verdict key := by
  obtain ⟨⟨steps, hrun⟩, hl, hc⟩ := h
  have hdue : l.due ≠ some key := by
    intro hd
    exact (hl.calm.running hl.pool (by simp [hd])).2 hs
  rw [verdict_eq]
  exact Pool.outcome_of_stopped hw hrun hs ((hc.named key hkey).resolve_left hdue)

/-- **The daemon converges**: when a daemon has drained, its objects are those that its lines leave,
and for each key that a line has named the last record says that it succeeded, unless there is an
object under the key that asks for a failure; then it says that the key was dropped with this
failure. -/
theorem last_records_agree_with_objects {capacity : Nat} {moves : List (Clocks × Move)} (hw : 1 ≤ setup.workers)
    (h : run setup (fresh capacity) moves = some (l, log)) (hs : l.pool.phase = .stopped) :
    l.store = (takeAll (linesOf log)).2 ∧
      ∀ key ∈ (takeAll (linesOf log)).1, ∃ r, (Pool.recordsOf key (noticesOf log)).getLast? = some r ∧
        r.outcome = l.store.verdict key := by
  have hl := reached_of_run h
  exact ⟨hl.converging.store, fun key hkey => hl.last_record hw hs hkey⟩

/-- An object is put that asks for a failure, and is mended after a handler has looked at it.
Another one is put that asks for a failure, and its retry is cut off. Lines that are blank or
refused are read between the two. -/
def mendedMeanwhile : List Move :=
  let upsert (id : Key) (tenant : String) (fail : Bool) : String :=
    (Event.upsert id tenant (.object [("fail", .bool fail)])).text
  [.pool .run, .take (upsert "a" "t" true), .tell, .pool (.work 0), .pool (.work 0), .look 0,
    .take (upsert "a" "t" false), .finish 0, .tell, .pool (.work 0), .pool (.work 0), .pool (.work 0), .pool (.work 0),
    .take "", .take (upsert "c" "" true), .take (upsert "b" "t" true), .tell, .stop,
    .pool (.work 0), .pool (.work 0), .look 0, .finish 0, .pool (.work 0), .pool (.work 0),
    .pool (.work 0), .pool (.work 0), .look 0, .finish 0, .pool (.work 0), .pool (.work 0), .pool (.work 0),
    .pool (.work 0), .pool .supervise, .pool .supervise, .pool (.work 0), .pool .supervise, .pool .supervise,
    .pool .supervise, .pool .supervise]

theorem last_records_agree_with_objects_mended_meanwhile :
    ∃ l log, run ⟨1, 5, .fixed (Span.ofMillis 100), none⟩ (fresh 10) (mendedMeanwhile.map (⟨0, .epoch⟩, ·)) =
        some (l, log) ∧ l.pool.phase = .stopped ∧ (takeAll (linesOf log)).1 = ["a", "a", "b"] ∧
      ((Pool.recordsOf "a" (noticesOf log)).map (·.outcome)).head? = some (.failure "object a requested failure") ∧
      (∃ r, (Pool.recordsOf "a" (noticesOf log)).getLast? = some r ∧ r.outcome = .success) ∧
      ∃ r, (Pool.recordsOf "b" (noticesOf log)).getLast? = some r ∧
        r.outcome = .failureFinal "object b requested failure" := by
  generalize hr : run _ _ _ = r
  have hseen : r.map (fun r => (r.1.pool.phase, (takeAll (linesOf r.2)).1,
      ((Pool.recordsOf "a" (noticesOf r.2)).map (·.outcome)).head?, r.1.store.verdict "a", r.1.store.verdict "b")) =
      some (.stopped, ["a", "a", "b"], some (.failure "object a requested failure"), .success,
        .failureFinal "object b requested failure") := by
    rw [← hr]
    decide +kernel
  obtain ⟨⟨l, log⟩, rfl, hmap⟩ := Option.map_eq_some_iff.mp hseen
  simp only [Prod.mk.injEq] at hmap
  obtain ⟨hstopped, hnamed, hfirst, ha, hb⟩ := hmap
  obtain ⟨-, hlast⟩ := last_records_agree_with_objects (by decide) hr hstopped
  rw [hnamed] at hlast
  exact ⟨l, log, rfl, hstopped, hnamed, hfirst, ha ▸ hlast "a" (by simp), hb ▸ hlast "b" (by simp)⟩

end Daemon.Live

end ControlLoop
