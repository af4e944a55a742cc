/-!
# The bell

A bell is the `Notify` of a queue. Whoever finds a queue empty takes a ticket and waits until it is
called. Tickets are called in the order in which they were taken. A ring that finds nobody waiting
is remembered, but only one: whoever comes next takes it along and looks at the queue once more
before waiting. A called ticket that is given back unused passes the call on.
-/

namespace ControlLoop

/-- Stands for one who waits. -/
abbrev Ticket := Nat

/-- Who waits for a queue. -/
structure Bell where
  /-- the tickets not called yet, oldest first -/
  waiting : List Ticket := []
  /-- the tickets called but not back at the queue yet, in the order of the calls -/
  called : List Ticket := []
  /-- is a ring remembered? -/
  permit : Bool := false
  deriving DecidableEq

namespace Bell

/-- Calls the oldest ticket, or remembers the ring. -/
def ring (b : Bell) : Bell :=
  match b.waiting with
  | t :: ts => { b with waiting := ts, called := b.called ++ [t] }
  | [] => { b with permit := true }

/-- Calls all tickets. -/
def ringAll (b : Bell) : Bell := { b with waiting := [], called := b.called ++ b.waiting }

/-- The holder of a ticket is at the queue; a remembered ring is used up. -/
def arrive (b : Bell) (t : Ticket) : Bell := { b with called := b.called.erase t, permit := false }

/-- The holder of a ticket waits. -/
def wait (b : Bell) (t : Ticket) : Bell := { b with waiting := b.waiting ++ [t] }

/-- The holder of a ticket leaves; a call that it did not use is passed on. -/
def leave (b : Bell) (t : Ticket) : Bell :=
  if t ∈ b.called then ring { b with called := b.called.erase t } else { b with waiting := b.waiting.erase t }

end Bell

end ControlLoop
