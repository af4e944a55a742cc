import ControlLoop.Record.Basic

/-!
# The ledger

A `SyncLedger` keeps the newest records, as many as its capacity, which is at least one. A new
record takes the place of the oldest where there is no room.
-/

namespace ControlLoop

/-- The newest records. -/
structure Ledger where
  /-- how many records there may be -/
  capacity : Nat
  /-- the records, oldest first -/
  records : List Record

namespace Ledger

/-- The largest capacity that room can ever be set aside for: a record takes 112 bytes, and a block
of memory is shorter than 2^63 bytes. This is the bound of the collection that holds the records,
and no other: a machine with less memory may refuse a smaller block too, which is left out. -/
def maxCapacity : Nat := (2 ^ 63 - 1) / 112

/-- An empty ledger for `capacity` records, but for one at least. -/
def empty (capacity : Nat) : Ledger := ⟨max capacity 1, []⟩

/-- An empty ledger, if the room for its records can be set aside, on a machine that gives every
block it is asked for that is shorter than 2^63 bytes. -/
def create? (capacity : Nat) : Option Ledger :=
  if max capacity 1 ≤ maxCapacity then some (empty capacity) else none

/-- Drops the oldest records until there is room for one more. -/
def makeRoom (capacity : Nat) : List Record → List Record
  | [] => []
  | r :: rs => if capacity ≤ (r :: rs).length then makeRoom capacity rs else r :: rs

/-- There is room indeed. -/
theorem length_makeRoom_lt {capacity : Nat} (h : 0 < capacity) (rs : List Record) :
    (makeRoom capacity rs).length < capacity := by
  fun_induction makeRoom capacity rs with
  | case1 => exact h
  | case2 r rs _ ih => exact ih
  | case3 r rs hroom => exact Nat.lt_of_not_le hroom

/-- Only the oldest records are dropped. -/
theorem makeRoom_suffix (capacity : Nat) (rs : List Record) : makeRoom capacity rs <:+ rs := by
  fun_induction makeRoom capacity rs with
  | case1 => exact List.suffix_refl []
  | case2 r rs _ ih => exact ih.trans (List.suffix_cons r rs)
  | case3 r rs _ => exact List.suffix_refl _

/-- Adds a record as the newest. -/
def record (l : Ledger) (r : Record) : Ledger := { l with records := makeRoom l.capacity l.records ++ [r] }

/-- The records of a key, oldest first. -/
def recordsFor (l : Ledger) (key : Key) : List Record := l.records.filter (·.key = key)

/-- How many records there are. -/
def length (l : Ledger) : Nat := l.records.length

end Ledger

end ControlLoop
