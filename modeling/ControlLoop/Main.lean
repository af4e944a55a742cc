import ControlLoop.Daemon.Basic
import Std.Time.DateTime.Timestamp

/-!
# The command line

What `main` does: it runs the daemon on the standard input, with its settings from the environment.
Time passes for the pool as it passes outside: before a line is taken in, everything due since the
line before it is done.
-/

namespace ControlLoop.Main

/-- The variables that are set. -/
def environment : IO Environment := do
  let mut values : Table ByteArray := ∅
  for name in Environment.variables do
    if let some value ← IO.getEnv name then
      values := values.insert name value.toUTF8
  return fun name => values[name]?

/-- What the wall clock shows. -/
def wallClock : IO Timestamp := do
  let now ← Std.Time.Timestamp.now
  return (Timestamp.ofNanos? now.toNanosecondsSinceUnixEpoch.val).getD .epoch

/-- Lets the time pass that has passed outside since `since`; returns the new reading of the outside
clock. -/
def catchUp (d : Daemon) (since : Nat) : IO (Nat × Daemon) := do
  let now ← IO.monoNanosNow
  let wall ← wallClock
  let d := PoolBench.modifyFlight d fun f => { f with wall }
  return (now, d.advance (Span.ofNanos (now - since)))

/-- Takes in the input to its end. -/
partial def feedAll (input : IO.FS.Stream) (d : Daemon) (since : Nat) : IO Daemon := do
  let line ← input.getLine
  let (since, d) ← catchUp d since
  if line.isEmpty then
    return d
  feedAll input ((Daemon.lines line).foldl Daemon.takeLine d) since

/-- Says why the daemon does not start; returns its exit code. -/
def fail (e : StartError) : IO UInt32 := do
  match e.label? with
  | some label => IO.eprintln ("Error: " ++ label)
  | none => IO.eprintln "capacity overflow"
  return UInt32.ofNat e.exitCode

/-- Runs the daemon; returns its exit code. -/
def run : IO UInt32 := do
  match DaemonConfig.ofEnvironment (← environment) with
  | .error e => fail (.config e)
  | .ok c =>
    match Daemon.start c (← wallClock) with
    | .error e => fail e
    | .ok d =>
      let d ← feedAll (← IO.getStdin) d (← IO.monoNanosNow)
      if c.dumpLedger then
        IO.println (Daemon.ledgerText (Daemon.finish d))
      return 0

end ControlLoop.Main

/-- Runs the daemon. -/
def main : IO UInt32 := ControlLoop.Main.run
