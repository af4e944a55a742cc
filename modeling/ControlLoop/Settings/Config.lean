import ControlLoop.Settings.Backoff

/-!
# Settings

A `SyncerConfig`: the settings of a control loop, their defaults, and the combinations that no loop
can run with, which `validate` refuses.
-/

namespace ControlLoop

/-- Why settings are refused. -/
inductive ConfigError where
  /-- a variable whose value has no meaning, or a period of no length -/
  | invalidValue (name : String)
  /-- a loop without workers -/
  | noWorkers
  /-- a ledger that holds nothing -/
  | emptyLedger
  /-- a first wait longer than the longest -/
  | backoffOrder
  deriving DecidableEq

namespace ConfigError

/-- The error in words. -/
def message : ConfigError → String
  | invalidValue name => "invalid value for " ++ name
  | noWorkers => "at least one worker is required"
  | emptyLedger => "ledger capacity must be at least 1"
  | backoffOrder => "backoff base must not exceed backoff max"

/-- The error as a daemon that does not start prints it. -/
def label : ConfigError → String
  | invalidValue name => "InvalidValue(\"" ++ name ++ "\")"
  | noWorkers => "NoWorkers"
  | emptyLedger => "EmptyLedger"
  | backoffOrder => "BackoffOrder"

end ConfigError

/-- The settings of a loop. -/
structure Config where
  /-- how many workers the pool has -/
  workers : Nat := 1
  /-- how often a failed key is tried again -/
  retryLimit : Nat := 5
  /-- the wait before the first retry -/
  backoffBase : Span := Span.ofMillis 5
  /-- the longest wait before a retry -/
  backoffMax : Span := Span.ofSeconds 1
  /-- how often all stored keys are triggered -/
  resync : Option Span := none
  /-- how many records the ledger keeps -/
  ledgerCapacity : Nat := 256

namespace Config

instance : Inhabited Config := ⟨{}⟩

/-- The policy that the waits describe. -/
def backoff (c : Config) : Backoff := .exponential c.backoffBase c.backoffMax

/-- Refuses the combinations that no loop can run with. -/
def validate (c : Config) : Except ConfigError Unit :=
  if c.workers = 0 then .error .noWorkers
  else if c.ledgerCapacity = 0 then .error .emptyLedger
  else if c.backoffMax < c.backoffBase then .error .backoffOrder
  else if c.resync = some Span.zero then .error (.invalidValue "SYNCER_RESYNC_SECS")
  else .ok ()

theorem validate_eq_ok_iff {c : Config} :
    c.validate = .ok () ↔
      c.workers ≠ 0 ∧ c.ledgerCapacity ≠ 0 ∧ c.backoffBase ≤ c.backoffMax ∧ c.resync ≠ some Span.zero := by
  have horder : ¬c.backoffMax < c.backoffBase ↔ c.backoffBase ≤ c.backoffMax := Nat.not_lt
  rw [validate, ← horder]
  repeat' split
  all_goals simp_all

/-- The settings as the loops show themselves. -/
def text (c : Config) : String :=
  let resync := match c.resync with
    | some period => "Some(" ++ period.text ++ ")"
    | none => "None"
  "SyncerConfig \x7b workers: " ++ toString c.workers ++ ", retry_limit: " ++ toString c.retryLimit ++
    ", backoff_base: " ++ c.backoffBase.text ++ ", backoff_max: " ++ c.backoffMax.text ++
    ", resync_period: " ++ resync ++ ", ledger_capacity: " ++ toString c.ledgerCapacity ++ " \x7d"

end Config

end ControlLoop
