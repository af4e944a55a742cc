import ControlLoop.Json.Value

/-!
# The life of a loop

The `SyncerState` in its `StateCell`: a loop is idle, then it runs once, then it is stopped for
good.
-/

namespace ControlLoop

open Json

/-- How far a loop has come. -/
inductive Phase where
  /-- it has not run yet -/
  | idle
  /-- it runs -/
  | running
  /-- it has run -/
  | stopped
  deriving DecidableEq

namespace Phase

/-- The name of a phase in JSON. -/
def name : Phase → String
  | idle => "idle"
  | running => "running"
  | stopped => "stopped"

/-- The name of a phase in the text of a loop. -/
def label : Phase → String
  | idle => "Idle"
  | running => "Running"
  | stopped => "Stopped"

/-- The phase with a name. -/
def ofName? : String → Option Phase
  | "idle" => some idle
  | "running" => some running
  | "stopped" => some stopped
  | _ => none

theorem ofName?_name (p : Phase) : ofName? p.name = some p := by
  cases p <;> rfl

/-- The phase that a tree names: by a string, or by an object whose only field has that name and is
null. -/
def ofTree? : Tree → Option Phase
  | .string (some s) => ofName? s
  | .object [(some s, .null)] => ofName? s
  | _ => none

/-- The phase that a JSON text names. -/
def parse? (s : String) : Option Phase := (Tree.ofText? s).bind ofTree?

end Phase

end ControlLoop
