import ControlLoop.Proofs.Pool.Holder
import ControlLoop.Proofs.Pool.Run
import ControlLoop.Proofs.Pool.Step

/-!
# Driving a worker

What a single worker gets done while nobody else does anything: it runs the handler on the key that
it holds, goes on to the keys that wait, one after the other, and so comes to each of them. Nothing
of this needs a trigger or takes time, so whatever waits in the queue while some worker asks for a
key may be handled at once (`drive_to_pending`).

The steps are chosen here, not found: `Drives` says that some steps lead from one pool to another,
so that it may be asked what the pool is like then. Nobody triggers a key meanwhile, so nothing is
added to what was accepted.
-/

namespace ControlLoop.Pool

/-- Some steps lead from one pool to another while the clocks stand still and nobody triggers a
key. -/
def Drives (setup : Setup) (clocks : Clocks) (p q : Pool) (log : Log) : Prop :=
  (∃ actions, run setup p (allAt clocks actions) = some (q, log)) ∧ ∀ m key kind, (m, .accepted key kind) ∉ log

variable {setup : Setup} {clocks : Clocks} {p q r : Pool} {i : Nat} {old new : Stage} {k key : Key}
  {earlier later : Log}

namespace Drives

/-- One step drives a pool, unless it accepts a trigger. -/
theorem single {a : Action} {notices : List Notice} (h : p.act setup clocks a = some (q, notices))
    (hn : ∀ key kind, .accepted key kind ∉ notices) : Drives setup clocks p q (notices.map (clocks.now, ·)) := by
  constructor
  · exact ⟨[a], run_cons_eq_some.mpr ⟨q, notices, [], h, rfl, (List.append_nil _).symm⟩⟩
  · intro m key kind hmem
    obtain ⟨n, hn', heq⟩ := List.mem_map.mp hmem
    cases heq
    exact hn key kind hn'

/-- A pool may be driven further. -/
theorem trans (h₁ : Drives setup clocks p q earlier) (h₂ : Drives setup clocks q r later) :
    Drives setup clocks p r (earlier ++ later) := by
  obtain ⟨⟨first, hfirst⟩, hn₁⟩ := h₁
  obtain ⟨⟨second, hsecond⟩, hn₂⟩ := h₂
  constructor
  · refine ⟨first ++ second, ?_⟩
    rw [allAt, List.map_append]
    exact run_append_eq_some.mpr ⟨q, earlier, later, hfirst, hsecond, rfl⟩
  · intro m key kind hmem
    rcases List.mem_append.mp hmem with hmem | hmem
    · exact hn₁ m key kind hmem
    · exact hn₂ m key kind hmem

end Drives

/-- A worker that holds a key may run the handler on it, with success. -/
theorem drive_attempt (setup : Setup) (clocks : Clocks) {kind : Trigger}
    (hw : p.workers[i]? = some (.holding k kind)) :
    ∃ q log, Drives setup clocks p q log ∧ q.queue = p.queue ∧ q.workers[i]? = some (.releasing k) ∧
      (clocks.now, .began k) ∈ log := by
  let a : Attempt := ⟨k, kind, p.retryCount k, clocks.wall, clocks.now⟩
  have hbegin : p.act setup clocks (.work i) = some (p.moveTo i (.handling a), [.began k]) := by
    simp only [act, work, hw]
    rfl
  have hw₁ := getElem?_moveTo hw (.handling a)
  have hfinish : (p.moveTo i (.handling a)).act setup clocks (.finish i .success) =
      some ((p.moveTo i (.handling a)).finish clocks i a .success, []) := by
    simp only [act, hw₁]
  have hw₂ : ((p.moveTo i (.handling a)).finish clocks i a .success).workers[i]? =
      some (.settled a (a.elapsed clocks.now) .success) := getElem?_moveTo hw₁ _
  generalize hq : (p.moveTo i (.handling a)).finish clocks i a .success = q at hfinish hw₂
  have hrecord : q.act setup clocks (.work i) = some
      ((q.record fun id => a.record id (a.elapsed clocks.now) .success).moveTo i (.releasing k),
        [.recorded (a.record (Uuid.ofAttempt q.recordCount) (a.elapsed clocks.now) .success)]) := by
    simp only [act, work, hw₂]
    rfl
  have hdrive := ((Drives.single hbegin (by simp)).trans (.single hfinish (by simp))).trans
    (.single hrecord (by simp))
  refine ⟨_, _, hdrive, ?_, getElem?_moveTo hw₂ _, by simp⟩
  subst hq
  rfl

/-- A worker that has recorded its attempt may give the key back. -/
theorem drive_release (setup : Setup) (clocks : Clocks) (hw : p.workers[i]? = some (.releasing k)) :
    Drives setup clocks p (p.givenBack i k) [] := by
  have hact : p.act setup clocks (.work i) = some (p.givenBack i k, []) := by
    simp only [act, work, hw]
    rfl
  exact .single hact (by simp)

/-- A worker that asks for a key may handle the first that waits, and ask for the next. -/
theorem drive_key (setup : Setup) (clocks : Clocks) {rest : List Key} (hw : p.workers[i]? = some .asking)
    (hb : i ∉ p.queue.bell.waiting) (hp : p.queue.pending = k :: rest) :
    ∃ q log, Drives setup clocks p q log ∧ q.workers[i]? = some .asking ∧ i ∉ q.queue.bell.waiting ∧
      (∃ more, q.queue.pending = rest ++ more) ∧ (clocks.now, .began k) ∈ log := by
  have htake : p.act setup clocks (.work i) = some (p.taken i k rest, [.delivered k (p.kindOf k)]) := by
    simp only [act, work, hw, if_neg hb, ask_of_cons hp]
  have hw₁ : (p.taken i k rest).workers[i]? = some (.holding k (p.kindOf k)) := getElem?_moveTo hw _
  obtain ⟨q, log, hdrive, hqueue, hw₂, hbegan⟩ := drive_attempt setup clocks hw₁
  refine ⟨_, _, ((Drives.single htake (by simp)).trans hdrive).trans (drive_release setup clocks hw₂),
    getElem?_moveTo hw₂ _, ?_, ?_, by simp [hbegan]⟩
  · intro hmem
    have hmem := Queue.mem_waiting_of_done hmem
    rw [hqueue] at hmem
    exact hb hmem
  · obtain ⟨more, hmore⟩ := Queue.done_pending q.queue k
    refine ⟨more, hmore.trans ?_⟩
    rw [hqueue]
    rfl

/-- A worker that asks for a key may come to any that waits. -/
theorem drive_to_pending (setup : Setup) (clocks : Clocks) {before after : List Key}
    (hw : p.workers[i]? = some .asking) (hb : i ∉ p.queue.bell.waiting)
    (hp : p.queue.pending = before ++ key :: after) :
    ∃ q log, Drives setup clocks p q log ∧ (clocks.now, .began key) ∈ log := by
  induction before generalizing p after with
  | nil =>
    obtain ⟨q, log, hdrive, -, -, -, hbegan⟩ := drive_key setup clocks hw hb hp
    exact ⟨q, log, hdrive, hbegan⟩
  | cons k before ih =>
    rw [List.cons_append] at hp
    obtain ⟨q, log, hdrive, hw', hb', ⟨more, hmore⟩, -⟩ := drive_key setup clocks hw hb hp
    rw [List.append_assoc, List.cons_append] at hmore
    obtain ⟨r, later, hlater, hbegan⟩ := ih hw' hb' hmore
    exact ⟨r, log ++ later, hdrive.trans hlater, List.mem_append_right log hbegan⟩

end ControlLoop.Pool
