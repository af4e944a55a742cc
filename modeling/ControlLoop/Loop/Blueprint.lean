import ControlLoop.Loop.Pool
import ControlLoop.Settings.Config
import ControlLoop.Text.Quoted

/-!
# Blueprints

What a `SyncerBuilder` builds a loop from: a name, its settings, perhaps a policy of its own for the
waits between retries, and whether there is a source of keys for the resync. Nothing is built from
settings that make no sense.
-/

namespace ControlLoop

/-- What a loop is built from. -/
structure Blueprint where
  /-- its name -/
  name : String
  /-- its settings -/
  config : Config := {}
  /-- how long failed keys wait, if the settings do not say it -/
  backoff : Option Backoff := none
  /-- is there a source of keys? -/
  hasSource : Bool := false

namespace Blueprint

/-- What a pool is made with. Without a source there is no resync. -/
def setup (b : Blueprint) : Pool.Setup :=
  { workers := b.config.workers
    retryLimit := b.config.retryLimit
    backoff := b.backoff.getD b.config.backoff
    resync := if b.hasSource then b.config.resync.map .every else none }

/-- What a pool is made with, if the settings make sense. -/
def setup? (b : Blueprint) : Except ConfigError Pool.Setup := do
  b.config.validate
  return b.setup

/-- A pool as it shows itself. -/
def poolText (b : Blueprint) (phase : Phase) : String :=
  "WorkqueueSyncer \x7b name: " ++ Text.quoted b.name ++ ", config: " ++ b.config.text ++ ", state: " ++ phase.label ++
    " \x7d"

/-- A serial loop as it shows itself. -/
def serialText (b : Blueprint) (phase : Phase) : String :=
  "OneWorkerSyncer \x7b name: " ++ Text.quoted b.name ++ ", state: " ++ phase.label ++ " \x7d"

end Blueprint

end ControlLoop
