import Mathlib.Data.List.DropRight
import Mathlib.Data.List.Induction
import ControlLoop.Record.Ledger

/-!
# The ledger keeps the newest records

A ledger drops no record for which there is room: it holds the end of the list of all records that
it was ever given, as long as its capacity allows (`records_foldl`). So nothing about the order in
which records were dropped has to be known.

Whoever uses a ledger sees the answers of its calls. The state that some calls lead to is the tail
of what they recorded (`serve_snd`), and an answer is made of that state, so it is settled by the
calls before it (`getElem?_serve`).
-/

namespace ControlLoop.Ledger

/-- What is dropped is no more than has to be. -/
theorem makeRoom_eq_drop (capacity : Nat) (rs : List Record) :
    makeRoom capacity rs = rs.drop (rs.length + 1 - capacity) := by
  fun_induction makeRoom capacity rs with
  | case1 => rw [List.drop_nil]
  | case2 r rs hfull ih =>
    have hlength : (r :: rs).length + 1 - capacity = rs.length + 1 - capacity + 1 := by
      simp only [List.length_cons] at hfull ⊢
      omega
    rw [ih, hlength, List.drop_succ_cons]
  | case3 r rs hroom =>
    have hnone : (r :: rs).length + 1 - capacity = 0 := by omega
    rw [hnone, List.drop_zero]

theorem makeRoom_rtake (n : Nat) (rs : List Record) : makeRoom (n + 1) (rs.rtake (n + 1)) = rs.rtake n := by
  rw [makeRoom_eq_drop, List.rtake, List.rtake, List.drop_drop, List.length_drop]
  congr 1
  omega

/-- A ledger that has been given some records holds the newest of them, `rtake` of its capacity,
where zero counts as one. The induction is on the records from the end: the last one comes to a
ledger that holds the tail of those before it. -/
theorem records_foldl (capacity : Nat) (rs : List Record) :
    (rs.foldl record (empty capacity)).records = rs.rtake (max capacity 1) := by
  obtain ⟨n, hn⟩ : ∃ n, max capacity 1 = n + 1 := ⟨max capacity 1 - 1, by omega⟩
  have hledger : rs.foldl record (empty capacity) = ⟨n + 1, rs.rtake (n + 1)⟩ := by
    induction rs using List.reverseRecOn with
    | nil => rw [List.foldl_nil, empty, hn, List.rtake_nil]
    | append_singleton rs r ih => rw [List.foldl_concat, ih, record, makeRoom_rtake, List.rtake_concat_succ]
  rw [hledger, hn]

/-! ## Room -/

/-- A ledger is made exactly if the room for its capacity can be set aside, and it is empty then. -/
theorem create?_eq_some_iff {capacity : Nat} {l : Ledger} :
    create? capacity = some l ↔ capacity ≤ maxCapacity ∧ l = empty capacity := by
  have hone : 1 ≤ maxCapacity := by decide
  rw [create?, Option.ite_none_right_eq_some, Option.some_inj, Nat.max_le, eq_comm (a := empty capacity)]
  constructor
  · rintro ⟨⟨hroom, -⟩, rfl⟩
    exact ⟨hroom, rfl⟩
  · rintro ⟨hroom, rfl⟩
    exact ⟨⟨hroom, hone⟩, rfl⟩

theorem create?_eq_none_iff {capacity : Nat} : create? capacity = none ↔ maxCapacity < capacity := by
  rw [Option.eq_none_iff_forall_ne_some, ← Nat.not_le]
  constructor
  · intro h hroom
    exact h _ (create?_eq_some_iff.mpr ⟨hroom, rfl⟩)
  · intro h l hl
    exact h (create?_eq_some_iff.mp hl).1

/-! ## Calls -/

/-- What can be asked of a ledger. -/
inductive Call where
  /-- to keep a record -/
  | record (r : Record)
  /-- all records that it holds -/
  | snapshot
  /-- the records of a key -/
  | recordsFor (key : Key)
  /-- how many records it holds -/
  | length

/-- What a ledger answers. -/
inductive Answer where
  /-- nothing, as the call is done -/
  | done
  /-- some records -/
  | records (rs : List Record)
  /-- a number of records -/
  | count (n : Nat)

/-- Answers a call. -/
def answer (l : Ledger) : Call → Answer × Ledger
  | .record r => (.done, l.record r)
  | .snapshot => (.records l.records, l)
  | .recordsFor key => (.records (l.recordsFor key), l)
  | .length => (.count l.length, l)

/-- Answers calls, one after the other. -/
def serve (l : Ledger) : List Call → List Answer × Ledger
  | [] => ([], l)
  | call :: calls => ((l.answer call).1 :: ((l.answer call).2.serve calls).1, ((l.answer call).2.serve calls).2)

/-- The record that a call brings. -/
def Call.record? : Call → Option Record
  | record r => some r
  | _ => none

/-- The answer to a call where these records are held. -/
def Call.answerFrom (held : List Record) : Call → Answer
  | record _ => .done
  | snapshot => .records held
  | recordsFor key => .records (held.filter (·.key = key))
  | length => .count held.length

/-- All records that the calls bring. -/
def recorded (calls : List Call) : List Record := calls.filterMap Call.record?

theorem answer_fst (l : Ledger) (call : Call) : (l.answer call).1 = call.answerFrom l.records := by
  cases call <;> rfl

/-- Only a record changes a ledger. -/
theorem answer_snd (l : Ledger) (call : Call) : (l.answer call).2 = call.record?.toList.foldl record l := by
  cases call <;> rfl

/-- Calls are answered one after the other: later ones find the ledger that the earlier ones
leave. -/
theorem serve_append (l : Ledger) (calls later : List Call) :
    l.serve (calls ++ later) = ((l.serve calls).1 ++ ((l.serve calls).2.serve later).1,
      ((l.serve calls).2.serve later).2) := by
  induction calls generalizing l with
  | nil => rfl
  | cons call calls ih => rw [List.cons_append, serve, ih, serve, List.cons_append]

theorem length_serve (l : Ledger) (calls : List Call) : (l.serve calls).1.length = calls.length := by
  induction calls generalizing l with
  | nil => rfl
  | cons call calls ih => rw [serve, List.length_cons, List.length_cons, ih]

/-- Calls leave the ledger that their records make. -/
theorem serve_snd (l : Ledger) (calls : List Call) : (l.serve calls).2 = (recorded calls).foldl record l := by
  induction calls generalizing l with
  | nil => rfl
  | cons call calls ih =>
    rw [serve, ih, answer_snd, recorded, recorded, List.filterMap_cons]
    cases call.record? <;> rfl

/-- The answer to a call is made of what the ledger holds after the calls before it. -/
theorem getElem?_serve (l : Ledger) (earlier later : List Call) (call : Call) :
    (l.serve (earlier ++ call :: later)).1[earlier.length]? = some (call.answerFrom (l.serve earlier).2.records) := by
  rw [serve_append, serve, List.getElem?_append_right (length_serve l earlier).le, length_serve, Nat.sub_self,
    List.getElem?_cons_zero, answer_fst]

/-- A ledger that holds a tail has no more than one record to drop. -/
theorem makeRoom_rtake_eq (n : Nat) (rs : List Record) :
    makeRoom (n + 1) (rs.rtake (n + 1)) =
      if (rs.rtake (n + 1)).length = n + 1 then (rs.rtake (n + 1)).tail else rs.rtake (n + 1) := by
  rw [makeRoom_eq_drop]
  split
  · next hfull => rw [hfull, Nat.add_sub_cancel_left, List.drop_one]
  · next hroom =>
    have hlength : (rs.rtake (n + 1)).length ≤ n + 1 := by
      rw [List.rtake, List.length_drop]
      omega
    rw [Nat.sub_eq_zero_of_le (by omega), List.drop_zero]

theorem capacity_foldl (l : Ledger) (rs : List Record) : (rs.foldl record l).capacity = l.capacity := by
  induction rs generalizing l with
  | nil => rfl
  | cons r rs ih => rw [List.foldl_cons, ih, record]

/-- **A ledger is the tail of the records that it was given.** There is one for a capacity if the
room for it can be set aside. Then, whatever was called, it holds the newest records up to its
capacity, where zero counts as one; the next record drops at most one of them, and none as long as
there is room. Every answer is made of the records that were held when it was asked for, so what is
called later does not change it. -/
theorem ledger_is_tail (capacity : Nat) :
    ((∃ l, create? capacity = some l) ↔ capacity ≤ maxCapacity) ∧
      ∀ l, create? capacity = some l → ∀ calls answers l', l.serve calls = (answers, l') →
        l'.capacity = max capacity 1 ∧
        l'.records = (recorded calls).rtake (max capacity 1) ∧
        l'.length = min (recorded calls).length (max capacity 1) ∧
        makeRoom l'.capacity l'.records = (if l'.length = l'.capacity then l'.records.tail else l'.records) ∧
        ∀ earlier call later, calls = earlier ++ call :: later →
          answers[earlier.length]? = some (call.answerFrom ((recorded earlier).rtake (max capacity 1))) := by
  constructor
  · constructor
    · rintro ⟨l, hl⟩
      exact (create?_eq_some_iff.mp hl).1
    · intro hroom
      exact ⟨_, create?_eq_some_iff.mpr ⟨hroom, rfl⟩⟩
  · intro l hl calls answers l' hserve
    obtain ⟨-, rfl⟩ := create?_eq_some_iff.mp hl
    obtain ⟨rfl, rfl⟩ := Prod.mk.inj hserve
    have hrecords : ∀ calls, ((empty capacity).serve calls).2.records = (recorded calls).rtake (max capacity 1) := by
      intro calls
      rw [serve_snd, records_foldl]
    have hcapacity : ((empty capacity).serve calls).2.capacity = max capacity 1 := by
      rw [serve_snd, capacity_foldl, empty]
    refine ⟨hcapacity, hrecords calls, ?_, ?_, ?_⟩
    · rw [length, hrecords, List.rtake, List.length_drop]
      omega
    · obtain ⟨n, hn⟩ : ∃ n, max capacity 1 = n + 1 := ⟨max capacity 1 - 1, by omega⟩
      rw [length, hcapacity, hrecords, hn]
      exact makeRoom_rtake_eq n _
    · rintro earlier call later rfl
      rw [getElem?_serve, hrecords]

/-- No ledger is made for the largest capacity that can be asked for, so not every capacity has a
ledger that keeps the tail. -/
theorem no_ledger_for_every_capacity :
    ¬∀ capacity < 2 ^ 64, ∃ l, create? capacity = some l ∧
      ∀ rs : List Record, (rs.foldl record l).records = rs.rtake (max capacity 1) := by
  intro h
  obtain ⟨l, hl, -⟩ := h (2 ^ 64 - 1) (by decide)
  exact absurd (create?_eq_some_iff.mp hl).1 (by decide)

end ControlLoop.Ledger
