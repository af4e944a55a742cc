import ControlLoop.Key
import ControlLoop.Time.Timestamp

/-!
# Records

A `SyncInfo` is what is written down about an attempt: which key, what set it off, when it began,
how long it took, how it ended and how many failures the key had gathered before it.
-/

namespace ControlLoop

/-- What set an attempt off. -/
inductive Trigger where
  /-- somebody asked for it -/
  | manual
  /-- the loop itself did -/
  | auto
  deriving DecidableEq

namespace Trigger

/-- The name of a trigger in JSON. -/
def name : Trigger → String
  | manual => "manual"
  | auto => "auto"

/-- The trigger with a name. -/
def ofName? : String → Option Trigger
  | "manual" => some manual
  | "auto" => some auto
  | _ => none

theorem ofName?_name (t : Trigger) : ofName? t.name = some t := by
  cases t <;> rfl

end Trigger

/-- How an attempt ended. -/
inductive Outcome where
  /-- the handler succeeded -/
  | success
  /-- the handler failed and the key will be tried again -/
  | failure (error : String)
  /-- the handler failed and the key is dropped -/
  | failureFinal (error : String)
  deriving DecidableEq

namespace Outcome

/-- Did the attempt succeed? -/
def isSuccess : Outcome → Bool
  | success => true
  | _ => false

/-- Is the key dropped? -/
def isFinalFailure : Outcome → Bool
  | failureFinal _ => true
  | _ => false

end Outcome

/-- A number that tells attempts apart. -/
structure Uuid where
  /-- its 128 bits -/
  value : Nat
  /-- it has 128 bits -/
  value_lt : value < 2 ^ 128
  deriving DecidableEq

namespace Uuid

/-- The version of a uuid, which tells how it was made. -/
def version (u : Uuid) : Nat := u.value / 2 ^ 76 % 16

/-- The uuid of the attempt with a number: version 4, the number in the last 62 bits. -/
def ofAttempt (n : Nat) : Uuid :=
  ⟨4 * 2 ^ 76 + 2 * 2 ^ 62 + n % 2 ^ 62, by
    have : n % 2 ^ 62 < 2 ^ 62 := Nat.mod_lt _ (by decide)
    omega⟩

theorem version_ofAttempt (n : Nat) : (ofAttempt n).version = 4 := by
  have : n % 2 ^ 62 < 2 ^ 62 := Nat.mod_lt _ (by decide)
  simp only [version, ofAttempt]
  omega

end Uuid

/-- The record of an attempt. -/
structure Record where
  /-- tells the attempt from all others -/
  attempt : Uuid
  /-- the key it was made for -/
  key : Key
  /-- what set it off -/
  trigger : Trigger
  /-- when it began -/
  startedAt : Timestamp
  /-- how long it took -/
  duration : Span
  /-- how it ended -/
  outcome : Outcome
  /-- the failures that the key had gathered when it began -/
  retryCount : Nat
  deriving DecidableEq

end ControlLoop
