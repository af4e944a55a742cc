import ControlLoop.Record.Basic
import ControlLoop.Refusal
import ControlLoop.Time.Clocks

/-!
# Handlers

A `Handler` is what the loop runs on a key, each time in an `attempt`. Seen from the loop it does
some deeds one after the other (trigger a key of the same loop, sleep, set the wall clock forward)
and then succeeds, fails or breaks off. What it does may depend on a world of its own, and may
change it.
-/

namespace ControlLoop

/-! ## Results -/

/-- The failure that a handler reports. -/
structure HandlerError where
  /-- what went wrong -/
  message : String
  deriving DecidableEq

namespace HandlerError

/-- A refusal by a store or a queue, passed on by a handler. -/
def ofRefusal (r : Refusal) : HandlerError := ⟨r.message⟩

/-- What is reported for a handler that breaks off instead of ending. -/
def ofPanic (payload : Option String) : HandlerError :=
  ⟨"handler panicked: " ++ payload.getD "unknown panic payload"⟩

end HandlerError

/-- How a handler ends. -/
inductive Result where
  /-- it succeeds -/
  | success
  /-- it reports a failure -/
  | failure (error : HandlerError)
  /-- it breaks off, perhaps with a message -/
  | panic (payload : Option String)
  deriving DecidableEq

namespace Result

/-- The error that the loop notes down; a handler that breaks off has failed. -/
def error? : Result → Option String
  | success => none
  | failure e => some e.message
  | panic payload => some (HandlerError.ofPanic payload).message

/-- The result that an outcome in the form of an exception stands for. -/
def ofExcept : Except HandlerError Unit → Result
  | .ok () => success
  | .error e => failure e

end Result

/-! ## Deeds -/

/-- What a handler does before it ends. -/
inductive Deed where
  /-- it triggers a key of its own loop -/
  | trigger (key : Key) (kind : Trigger)
  /-- it sleeps -/
  | sleep (span : Span)
  /-- it sets the wall clock forward -/
  | advanceClock (span : Span)
  deriving DecidableEq

/-- One run of a handler. -/
structure Plan where
  /-- what it does, in order -/
  deeds : List Deed := []
  /-- how it ends -/
  result : Result := .success

/-- What is done about a key, and how that changes the world of the handler. All that a handler does
is settled when it is called: it reads its world and the key, but neither of the clocks, nor what
its own triggers come to. -/
abbrev Handler (ω : Type) := ω → Key → Plan × ω

/-! ## Attempts -/

/-- An attempt that has begun. -/
structure Attempt where
  /-- the key it is made for -/
  key : Key
  /-- what set it off -/
  trigger : Trigger
  /-- the failures that the key had gathered when it began -/
  retryCount : Nat
  /-- when it began, by the wall clock -/
  startedAt : Timestamp
  /-- when it began -/
  started : Moment
  deriving DecidableEq

namespace Attempt

/-- How long the attempt has taken. -/
def elapsed (a : Attempt) (now : Moment) : Span := Span.ofNanos (now - a.started)

/-- The record of the attempt. -/
def record (a : Attempt) (id : Uuid) (duration : Span) (outcome : Outcome) : Record :=
  { attempt := id, key := a.key, trigger := a.trigger, startedAt := a.startedAt, duration, outcome,
    retryCount := a.retryCount }

end Attempt

end ControlLoop
