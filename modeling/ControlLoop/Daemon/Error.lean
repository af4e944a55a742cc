import ControlLoop.Refusal
import ControlLoop.Settings.Config

/-!
# Errors of the daemon

An `AppError`: what the daemon reports instead of doing what it was told.
-/

namespace ControlLoop

/-- What a daemon reports. -/
inductive DaemonError where
  /-- settings it cannot run with -/
  | config (e : ConfigError)
  /-- a refusal by its store -/
  | refused (r : Refusal)
  /-- a line that is no event -/
  | badInput
  deriving DecidableEq

/-- The error in words; what is wrong with a bad line is not said. -/
def DaemonError.message : DaemonError → String
  | config e => "Configuration error: " ++ e.message
  | refused r => "Engine error: " ++ r.message
  | badInput => "Invalid input"

/-- Why a daemon does not start. -/
inductive StartError where
  /-- settings it cannot run with -/
  | config (e : ConfigError)
  /-- no room can be set aside for its ledger -/
  | outOfMemory
  deriving DecidableEq

namespace StartError

/-- What is printed about it as an error. -/
def label? : StartError → Option String
  | config e => some e.label
  | outOfMemory => none

/-- The exit code that it leads to. -/
def exitCode : StartError → Nat
  | config _ => 1
  | outOfMemory => 101

end StartError

end ControlLoop
