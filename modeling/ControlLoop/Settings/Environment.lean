import ControlLoop.Settings.Config
import ControlLoop.Text.Blank

/-!
# Settings from the environment

What `from_env` reads. A daemon takes its settings from variables. A variable that is unset, or
whose bytes are no UTF-8 text, leaves the default. Values are read in a fixed order and the first
one without a meaning is the error; only when every variable has been read are the settings looked
at together.
-/

namespace ControlLoop

/-- The bytes of each variable that is set. -/
abbrev Environment := String → Option ByteArray

namespace Environment

/-- The text of a variable, if it is set to one. -/
def text? (env : Environment) (name : String) : Option String :=
  (env name).bind String.fromUTF8?

end Environment

/-- The variables that a daemon looks at. -/
def Environment.variables : List String :=
  ["SYNCER_NAME", "SYNCER_DUMP_LEDGER", "SYNCER_WORKERS", "SYNCER_RETRY_LIMIT", "SYNCER_BACKOFF_BASE_MS",
    "SYNCER_BACKOFF_MAX_MS", "SYNCER_RESYNC_SECS", "SYNCER_LEDGER_CAPACITY"]

namespace Setting

/-- Digits after at most one plus sign, with a value below `bound`; blanks around them do not
count. -/
def number? (bound : Nat) (s : String) : Option Nat :=
  let cs := Text.trim s.toList
  let digits := match cs with
    | '+' :: rest => rest
    | cs => cs
  if digits ≠ [] ∧ digits.all Char.isDigit ∧ Digits.value digits < bound then some (Digits.value digits)
  else none

/-- One of the spellings of yes and no, in either case; blanks around it do not count. -/
def flag? (s : String) : Option Bool :=
  let word := String.ofList ((Text.trim s.toList).map Char.toLower)
  if word ∈ ["1", "true", "yes", "on"] then some true
  else if word ∈ ["0", "false", "no", "off"] then some false
  else none

/-- The value of a variable read by `read?`; none if it is unset, an error if it has no meaning. -/
def read {α : Type} (env : Environment) (name : String) (read? : String → Option α) :
    Except ConfigError (Option α) :=
  match env.text? name with
  | none => .ok none
  | some s =>
    match read? s with
    | some a => .ok (some a)
    | none => .error (.invalidValue name)

end Setting

namespace Config

/-- The settings of the loop, in the order in which their variables are read. -/
def ofEnvironment (env : Environment) : Except ConfigError Config := do
  let base : Config := {}
  let workers ← Setting.read env "SYNCER_WORKERS" (Setting.number? (2 ^ 64))
  let retryLimit ← Setting.read env "SYNCER_RETRY_LIMIT" (Setting.number? (2 ^ 32))
  let backoffBase ← Setting.read env "SYNCER_BACKOFF_BASE_MS" (Setting.number? (2 ^ 64))
  let backoffMax ← Setting.read env "SYNCER_BACKOFF_MAX_MS" (Setting.number? (2 ^ 64))
  let resync ← Setting.read env "SYNCER_RESYNC_SECS" (Setting.number? (2 ^ 64))
  let ledgerCapacity ← Setting.read env "SYNCER_LEDGER_CAPACITY" (Setting.number? (2 ^ 64))
  let config : Config := {
    workers := workers.getD base.workers
    retryLimit := retryLimit.getD base.retryLimit
    backoffBase := (backoffBase.map Span.ofMillis).getD base.backoffBase
    backoffMax := (backoffMax.map Span.ofMillis).getD base.backoffMax
    resync := resync.map Span.ofSeconds
    ledgerCapacity := ledgerCapacity.getD base.ledgerCapacity }
  -- a value without a meaning is reported before settings that do not go together
  config.validate
  return config

end Config

/-- The settings of a daemon. -/
structure DaemonConfig where
  /-- the name of its loop -/
  name : String
  /-- is the ledger printed at the end? -/
  dumpLedger : Bool
  /-- the settings of its loop -/
  config : Config

namespace DaemonConfig

/-- The settings of the daemon: its name, whether it prints the ledger, then those of the loop. -/
def ofEnvironment (env : Environment) : Except ConfigError DaemonConfig := do
  let name := (env.text? "SYNCER_NAME").getD "syncer-daemon"
  let dumpLedger ← Setting.read env "SYNCER_DUMP_LEDGER" Setting.flag?
  let config ← Config.ofEnvironment env
  return ⟨name, dumpLedger.getD true, config⟩

end DaemonConfig

end ControlLoop
