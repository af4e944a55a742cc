import ControlLoop.Loop.Handler

/-!
# Scripts

A script stands for the `Handler` of a test. It says for each key what the handler does in its first
attempt, its second attempt and so on; the last entry holds for all further attempts. A key that the
script does not name goes by the entry for all others, and without an entry the handler succeeds at
once.
-/

namespace ControlLoop

/-- What handlers do, by key and attempt. -/
structure Script where
  /-- what is done about the keys that are named -/
  named : Table (List Plan)
  /-- what is done about all others -/
  others : List Plan

/-- What a scripted handler remembers. -/
structure Script.Memory where
  /-- how many attempts there were for each key -/
  attempts : Table Nat := ∅
  /-- the keys that a resync triggers -/
  keys : List Key := []

namespace Script

/-- What is done in attempt number `n`, counted from 0. -/
def plan (s : Script) (key : Key) (n : Nat) : Plan :=
  let plans := s.named[key]?.getD s.others
  plans.getD (min n (plans.length - 1)) {}

/-- The handler that follows a script. -/
def handler (s : Script) : Handler Memory := fun memory key =>
  let n := memory.attempts[key]?.getD 0
  (s.plan key n, { memory with attempts := memory.attempts.insert key (n + 1) })

end Script

end ControlLoop
