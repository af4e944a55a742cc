import ControlLoop.Record.Basic
import ControlLoop.Time.Clocks

/-!
# Notices

What an onlooker takes down about a loop while it runs; the loop itself knows nothing of it. Who
reads the notices in their order can tell what was asked for, what was done about it and when, also
where the ledger has dropped the record.
-/

namespace ControlLoop

/-- Something that happened to a key. -/
inductive Notice where
  /-- a trigger was accepted, or the resync put the key in -/
  | accepted (key : Key) (kind : Trigger)
  /-- a trigger was refused -/
  | refused (key : Key)
  /-- a worker took the key -/
  | delivered (key : Key) (kind : Trigger)
  /-- a worker began to run the handler -/
  | began (key : Key)
  /-- a timer was set that puts the key in -/
  | delayed (key : Key) (deadline : Moment)
  /-- a timer put the key in -/
  | released (key : Key)
  /-- a record was made -/
  | recorded (r : Record)
  deriving DecidableEq

end ControlLoop
