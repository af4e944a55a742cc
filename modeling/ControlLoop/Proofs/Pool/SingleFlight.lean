import ControlLoop.Proofs.Pool.Sound

/-!
# Single flight

However many workers a pool has, a key is never handled twice at a time. The queue alone does not
make it so: it hands a key out again as soon as it is told that its holder is done. It is so because
the keys that the queue counts as handed out are the keys that workers hold, at every moment of
every run (`Pool.Sound`), and a worker that runs the handler holds the key that it runs it on.
-/

namespace ControlLoop.Pool

namespace Stage

/-- The key that a worker runs the handler on. -/
def handled? : Stage → Option Key
  | handling a => some a.key
  | asking | holding .. | counting .. | retrying .. | settled .. | releasing _ | exited => none

theorem key?_of_handled? {s : Stage} {key : Key} (h : s.handled? = some key) : s.key? = some key := by
  cases s with
  | handling a => exact h
  | _ => cases h

end Stage

/-- The keys that the handler runs on, one for each invocation. A key that is handled twice at a
time would be in this list twice. -/
def inFlight (p : Pool) : List Key := p.workers.filterMap Stage.handled?

/-- No key is handled twice at a time: the handler runs on each key once at most and on no more keys
than there are workers, the keys that are handed out are those that workers hold, and none of them
waits. -/
structure SingleFlight (setup : Setup) (p : Pool) : Prop where
  /-- at most one invocation of the handler runs for each key -/
  nodup_inFlight : p.inFlight.Nodup
  /-- at most one worker holds a key -/
  nodup_held : p.held.Nodup
  /-- the keys that are handed out are those that workers hold -/
  mem_processing : ∀ key, key ∈ p.queue.processing ↔ ∃ s ∈ p.workers, s.key? = some key
  /-- no key waits that a worker holds -/
  not_mem_pending : ∀ s ∈ p.workers, ∀ key, s.key? = some key → key ∉ p.queue.pending
  /-- there are no more invocations than workers -/
  length_inFlight : p.inFlight.length ≤ setup.workers

variable {setup : Setup} {p : Pool}

/-- Who runs the handler on a key holds it. -/
theorem inFlight_sublist_held (p : Pool) : p.inFlight.Sublist p.held := by
  unfold inFlight held
  induction p.workers with
  | nil => exact .slnil
  | cons s workers ih =>
    cases hh : s.handled? with
    | none =>
      rw [List.filterMap_cons_none hh]
      refine ih.trans ?_
      rw [List.filterMap_cons]
      split
      · exact List.Sublist.refl _
      · exact List.sublist_cons_self _ _
    | some key =>
      rw [List.filterMap_cons_some hh, List.filterMap_cons_some (Stage.key?_of_handled? hh)]
      exact ih.cons_cons key

/-- A pool has no more workers than it was made with: none before it runs, and all of them
afterwards. -/
theorem Sound.length_workers_le (h : p.Sound setup) : p.workers.length ≤ setup.workers := by
  by_cases hi : p.phase = .idle
  · rw [(h.idle hi).1]
    exact Nat.zero_le _
  · exact Nat.le_of_eq (h.length_workers hi)

/-- A sound pool handles no key twice at a time: what is in flight is part of what is held, and no
key is held twice. -/
theorem Sound.singleFlight (h : p.Sound setup) : p.SingleFlight setup where
  nodup_inFlight := h.nodup_held.sublist (inFlight_sublist_held p)
  nodup_held := h.nodup_held
  mem_processing key := (h.mem_processing key).trans mem_held
  not_mem_pending s hs key hk := by
    refine h.queue.not_mem_pending key ?_
    exact (h.mem_processing key).mpr (mem_held.mpr ⟨s, hs, hk⟩)
  length_inFlight := Nat.le_trans (List.length_filterMap_le _ _) h.length_workers_le

/-- **Single flight**: after every run, whatever the order in which triggers, workers, timers, the
resync and the supervisor took their steps, no key is handled twice at a time. -/
theorem single_flight {capacity : Nat} {steps : List (Clocks × Action)} {log : Log}
    (h : run setup (fresh capacity) steps = some (p, log)) : p.SingleFlight setup :=
  (sound_of_run h).singleFlight

/-- Two workers run the handler on two keys, and one of the keys has come again meanwhile. -/
theorem single_flight_of_two_workers :
    ∃ p log, run ⟨2, 3, .fixed Span.zero, none⟩ (fresh 10) (allAt ⟨0, .epoch⟩
        [.run, .trigger "a" .manual, .trigger "b" .auto, .work 0, .work 1, .work 0, .work 1, .trigger "a" .auto]) =
          some (p, log) ∧
      p.inFlight = ["a", "b"] ∧ "a" ∈ p.queue.dirty ∧ p.SingleFlight ⟨2, 3, .fixed Span.zero, none⟩ := by
  generalize hr : run _ _ _ = r
  have hseen : r.map (fun r => (r.1.inFlight, decide ("a" ∈ r.1.queue.dirty))) = some (["a", "b"], true) := by
    rw [← hr]
    decide +kernel
  obtain ⟨⟨p, log⟩, rfl, hmap⟩ := Option.map_eq_some_iff.mp hseen
  simp only [Prod.mk.injEq, decide_eq_true_eq] at hmap
  exact ⟨p, log, rfl, hmap.1, hmap.2, single_flight hr⟩

end ControlLoop.Pool
