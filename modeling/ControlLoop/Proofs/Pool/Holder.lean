import ControlLoop.Loop.PoolStep

/-!
# Who holds a key

The keys that the workers of a pool hold (`Pool.held`), and the stage of the worker that holds a key
(`Pool.seat`). When a worker moves to another stage, only its own key can be taken up or put down:
`held_moveTo` says so for all keys at once, and the lemmas on `seat` for a single one.

Everything is said up to the order of the workers (`List.Perm`), since the place of a worker in the
list never matters. The three ways to move are to keep what one holds (`held_moveTo_of_eq`), to take
a key up (`held_moveTo_of_take`) and to put it down (`held_moveTo_of_drop`).
-/

namespace ControlLoop.Pool

/-- The keys that workers hold. -/
def held (p : Pool) : List Key := p.workers.filterMap Stage.key?

/-- The stage of the worker that holds a key. -/
def seat (p : Pool) (key : Key) : Option Stage := p.workers.find? (·.key? = some key)

variable {p q : Pool} {i : Nat} {old new stage : Stage} {key : Key}

/-- A key is held if some worker is at a stage with that key. -/
theorem mem_held : key ∈ p.held ↔ ∃ s ∈ p.workers, s.key? = some key := List.mem_filterMap

theorem getElem?_moveTo (h : p.workers[i]? = some old) (new : Stage) : (p.moveTo i new).workers[i]? = some new :=
  List.getElem?_set_self (List.getElem?_eq_some_iff.mp h).1

/-- The workers before and behind the one that moves stay where they are. -/
theorem moveTo_split (h : p.workers[i]? = some old) :
    ∃ before after, p.workers = before ++ old :: after ∧ ∀ new, (p.moveTo i new).workers = before ++ new :: after := by
  obtain ⟨hlt, rfl⟩ := List.getElem?_eq_some_iff.mp h
  refine ⟨p.workers.take i, p.workers.drop (i + 1), ?_, fun new => ?_⟩
  · rw [List.getElem_cons_drop, List.take_append_drop]
  · rw [moveTo, List.set_eq_take_append_cons_drop, if_pos hlt]

/-- A worker that moves changes only what it holds itself. -/
theorem held_moveTo (h : p.workers[i]? = some old) :
    ∃ others, p.held.Perm (old.key?.toList ++ others) ∧
      ∀ new, (p.moveTo i new).held.Perm (new.key?.toList ++ others) := by
  obtain ⟨before, after, hw, hnew⟩ := moveTo_split h
  -- whatever the stage of the one worker, the others hold what is in front of it and behind it
  have hperm : ∀ s : Stage, ((before ++ s :: after).filterMap Stage.key?).Perm
      (s.key?.toList ++ (before.filterMap Stage.key? ++ after.filterMap Stage.key?)) := by
    intro s
    rw [List.filterMap_append, List.filterMap_cons]
    cases s.key? with
    | none => exact List.Perm.refl _
    | some key => exact List.perm_middle
  refine ⟨before.filterMap Stage.key? ++ after.filterMap Stage.key?, ?_, fun new => ?_⟩
  · rw [held, hw]
    exact hperm old
  · rw [held, hnew new]
    exact hperm new

/-- A worker that keeps its key, or goes on without one, changes nothing of what is held. -/
theorem held_moveTo_of_eq (h : p.workers[i]? = some old) (hk : new.key? = old.key?) :
    (p.moveTo i new).held.Perm p.held := by
  obtain ⟨others, hold, hnew⟩ := held_moveTo h
  exact (hnew new).trans (hk ▸ hold.symm)

/-- A worker that had no key and takes one adds it to what is held. -/
theorem held_moveTo_of_take (h : p.workers[i]? = some old) (ho : old.key? = none) (hk : new.key? = some key) :
    (p.moveTo i new).held.Perm (key :: p.held) := by
  obtain ⟨others, hold, hnew⟩ := held_moveTo h
  have hnew := hnew new
  rw [hk] at hnew
  rw [ho] at hold
  exact hnew.trans (hold.symm.cons key)

/-- A worker that puts its key down takes it off what is held, once. -/
theorem held_moveTo_of_drop (h : p.workers[i]? = some old) (ho : old.key? = some key) (hk : new.key? = none) :
    p.held.Perm (key :: (p.moveTo i new).held) := by
  obtain ⟨others, hold, hnew⟩ := held_moveTo h
  have hnew := hnew new
  rw [hk] at hnew
  rw [ho] at hold
  exact hold.trans (hnew.symm.cons key)

/-! ## The stage of the worker that holds a key

`seat` finds the first worker that holds a key. Where no key is held twice (`Sound.nodup_held`) the
first is the only one, so only the moves of this worker change what is found, and a worker that is
known to hold the key is the one that is found (`seat_eq_some`). -/

/-- The stage of a holder is a matter of the workers alone; what happens to the queue and the tables
does not touch it. -/
theorem seat_congr (h : q.workers = p.workers) : q.seat key = p.seat key := by
  rw [seat, seat, h]

/-- The stage that is found for a key is that of a worker, and the worker holds the key. -/
theorem mem_of_seat (h : p.seat key = some stage) : stage ∈ p.workers ∧ stage.key? = some key := by
  obtain ⟨hk, -⟩ := List.find?_eq_some_iff_append.mp h
  exact ⟨List.mem_of_find?_eq_some h, of_decide_eq_true hk⟩

/-- No stage is found for a key exactly if nobody holds it. -/
theorem seat_eq_none_iff : p.seat key = none ↔ key ∉ p.held := by
  rw [seat, List.find?_eq_none, mem_held]
  simp

/-- If no key is held twice, whoever holds a key is the one that holds it. -/
theorem seat_eq_some (hn : p.held.Nodup) (hw : p.workers[i]? = some stage) (hk : stage.key? = some key) :
    p.seat key = some stage := by
  obtain ⟨before, after, hsplit, -⟩ := moveTo_split hw
  rw [held, hsplit, List.filterMap_append, List.filterMap_cons_some hk, List.perm_middle.nodup_iff] at hn
  have hnone : before.find? (·.key? = some key) = none := by
    rw [List.find?_eq_none]
    intro s hs hsk
    refine (List.nodup_cons.mp hn).1 (List.mem_append_left _ ?_)
    exact List.mem_filterMap.mpr ⟨s, hs, of_decide_eq_true hsk⟩
  rw [seat, hsplit, List.find?_append, hnone, List.find?_cons_of_pos (by simpa using hk)]
  rfl

/-- A worker that has moved with its key, or taken one up, is found by that key at its new stage. -/
theorem seat_moveTo_self (hw : p.workers[i]? = some old) (hn : (p.moveTo i new).held.Nodup)
    (hk : new.key? = some key) : (p.moveTo i new).seat key = some new :=
  seat_eq_some hn (getElem?_moveTo hw new) hk

/-- Whoever moves with another key, or without one, is not in the way: for this key the same stage
is found. -/
theorem seat_moveTo_of_ne (hw : p.workers[i]? = some old) (ho : old.key? ≠ some key) (hk : new.key? ≠ some key) :
    (p.moveTo i new).seat key = p.seat key := by
  obtain ⟨before, after, hsplit, hnew⟩ := moveTo_split hw
  rw [seat, seat, hnew new, hsplit, List.find?_append, List.find?_append, List.find?_cons_of_neg (by simpa using hk),
    List.find?_cons_of_neg (by simpa using ho)]

/-- When its holder has put a key down nobody holds it, since nobody else held it before. -/
theorem seat_moveTo_of_drop (hw : p.workers[i]? = some old) (hn : p.held.Nodup) (ho : old.key? = some key)
    (hk : new.key? = none) : (p.moveTo i new).seat key = none := by
  rw [seat_eq_none_iff]
  exact (List.nodup_cons.mp ((held_moveTo_of_drop hw ho hk).nodup_iff.mp hn)).1

end ControlLoop.Pool
