import ControlLoop.Bench.Pool
import ControlLoop.Daemon.Tenant
import ControlLoop.Loop.Blueprint
import ControlLoop.Record.Json
import ControlLoop.Settings.Environment

/-!
# The daemon

The program around a pool, what `run` and `feed` do. The daemon reads events line by line, keeps the
objects that they describe and triggers each object that one of them is about; a pool reconciles
what is triggered. Blank lines and lines that describe no event, or one that the store refuses, are
passed over. At the end of the input the pool drains, and the ledger is printed.
-/

namespace ControlLoop

/-- The pool that the daemon runs. -/
abbrev Daemon := PoolBench TenantStore

namespace Daemon

/-- A reconciler as a handler: what it does is decided by the object it finds. -/
def handler : Handler TenantStore := fun store key => ({ result := .ofExcept (store.reconcile key) }, store)

/-- A pool that reconciles; all objects that are stored are triggered again by a resync. -/
def create (setup : Pool.Setup) (ledgerCapacity : Nat) (wall : Timestamp) : Daemon :=
  PoolBench.create setup handler Store.keys ledgerCapacity TenantStore.empty wall

/-- The blueprint of the daemon's pool. -/
def blueprint (c : DaemonConfig) : Blueprint := { name := c.name, config := c.config, hasSource := true }

/-- A daemon without objects, its pool running. -/
def start (c : DaemonConfig) (wall : Timestamp) : Except StartError Daemon := do
  let setup ← (blueprint c).setup?.mapError .config
  if (Ledger.create? c.config.ledgerCapacity).isNone then throw .outOfMemory
  return PoolBench.run (create setup c.config.ledgerCapacity wall)

/-- Applies the event of a line and triggers the object that it is about; returns its key, and
whether the trigger was accepted. -/
def feed (d : Daemon) (line : String) : Except DaemonError (Key × Bool) × Daemon :=
  match d.state.flight.world.applyLine line with
  | .error e => (.error e, d)
  | .ok (key, store) =>
    let d := PoolBench.modifyFlight d fun f => { f with world := store }
    let (accepted, d) := PoolBench.trigger d key .manual
    (.ok (key, accepted), d)

/-- Takes in a line of input, which may be blank or bad. -/
def takeLine (d : Daemon) (line : String) : Daemon :=
  if (Text.trim line.toList).isEmpty then d else (feed d line).2

/-- Stops the pool and lets it drain; returns the records of the ledger. -/
def finish (d : Daemon) : List Record :=
  (PoolBench.awaitEnd (PoolBench.stop d) Span.longest).2.state.pool.ledger.records

/-! ## Lines -/

/-- A line without the carriage return at its end. -/
def dropReturn (line : List Char) : List Char :=
  match line.reverse with
  | '\r' :: rest => rest.reverse
  | _ => line

/-- The lines of a text. A line ends with a line feed, before which there may be a carriage return;
what follows the last line feed is a line if there is anything. -/
def linesFrom : (current : List Char) → List Char → List String
  | [], [] => []
  | current, [] => [String.ofList current.reverse]
  | current, '\n' :: cs => String.ofList (dropReturn current.reverse) :: linesFrom [] cs
  | current, c :: cs => linesFrom (c :: current) cs

/-- The lines of a text. -/
def lines (text : String) : List String := linesFrom [] text.toList

/-! ## The whole run -/

/-- What a run of the daemon leaves behind. -/
structure Report where
  /-- why it did not start, if so -/
  error : Option StartError
  /-- the ledger, if it is printed -/
  records : Option (List Record)

/-- The exit code of a run. -/
def Report.exitCode (r : Report) : Nat := r.error.elim 0 StartError.exitCode

/-- The ledger as it is printed. -/
def ledgerText (records : List Record) : String := (Json.Value.array (records.map Record.toJson)).pretty

/-- Runs the daemon on an input. -/
def run (env : Environment) (wall : Timestamp) (input : String) : Report :=
  let result : Except StartError (Option (List Record)) := do
    let c ← (DaemonConfig.ofEnvironment env).mapError .config
    let d ← start c wall
    let records := finish ((lines input).foldl takeLine d)
    return if c.dumpLedger then some records else none
  match result with
  | .ok records => ⟨none, records⟩
  | .error e => ⟨some e, none⟩

end Daemon

end ControlLoop
