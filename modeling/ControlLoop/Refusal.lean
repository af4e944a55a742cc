import ControlLoop.Key

/-!
# Refusals

An `Error` says what a store or a queue does not do, and why.
-/

namespace ControlLoop

/-- A refusal by a store or a queue. -/
inductive Refusal where
  /-- an index function rejects an object -/
  | indexFunction (index : String) (key : Key) (reason : String)
  /-- no index has this name -/
  | indexNotFound (name : String)
  /-- an index has this name already -/
  | alreadyRegistered (name : String)
  /-- the queue takes no more keys -/
  | queueShutdown
  deriving DecidableEq

/-- The refusal in words. -/
def Refusal.message : Refusal → String
  | indexFunction index key reason =>
    "index function '" ++ index ++ "' failed for key '" ++ key ++ "': " ++ reason
  | indexNotFound name => "index not found: " ++ name
  | alreadyRegistered name => "indexer already registered: " ++ name
  | queueShutdown => "queue is shutting down"

end ControlLoop
