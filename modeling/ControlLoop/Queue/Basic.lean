import ControlLoop.Queue.Bell
import ControlLoop.Refusal
import ControlLoop.Time.Clocks

/-!
# The queue

A queue is a `WorkQueue`: it hands out keys in the order in which they came, each to one holder at a
time. A key that waits already is not put in twice. A key that comes while it is handed out is
marked, and put in again when its holder is done with it, so that nothing said about a key goes
unnoticed. A key may also be put in after a delay; of several delays of a key the one that ends
first counts, and the timers of the others find nothing to do.

Once it is shut a queue takes no more keys and forgets the delayed ones, but hands out what waits in
it.
-/

namespace ControlLoop

/-- Keys that wait to be handed out. -/
structure Queue where
  /-- the keys that wait, oldest first -/
  pending : List Key := []
  /-- the same keys as a set -/
  queued : Names := ∅
  /-- the keys that are handed out -/
  processing : Names := ∅
  /-- the keys that came again while handed out -/
  dirty : Names := ∅
  /-- when each delayed key is put in -/
  delayed : Table Moment := ∅
  /-- the timers that run: a key and the moment at which it is put in -/
  timers : List (Key × Moment) := []
  /-- is it shut? -/
  closed : Bool := false
  /-- who waits for keys -/
  bell : Bell := {}

namespace Queue

/-! ## Putting keys in -/

/-- Puts a key at the end, and rings. -/
def append (q : Queue) (key : Key) : Queue :=
  { q with pending := q.pending ++ [key], queued := q.queued.insert key, bell := q.bell.ring }

/-- Puts a key in, unless it waits already; marks it if it is handed out. -/
def insert (q : Queue) (key : Key) : Queue :=
  if key ∈ q.processing then { q with dirty := q.dirty.insert key }
  else if key ∈ q.queued then q
  else q.append key

/-- Puts a key in and changes `s` together with it, unless the queue is shut. -/
def addWith {σ : Type} (q : Queue) (key : Key) (change : σ → σ) (s : σ) : Except Refusal (σ × Queue) :=
  if q.closed then .error .queueShutdown else .ok (change s, q.insert key)

/-- Puts a key in, unless the queue is shut. -/
def add? (q : Queue) (key : Key) : Except Refusal Queue :=
  (q.addWith key id ()).map (·.2)

/-- Puts a key in; a queue that is shut stays as it is. -/
def add (q : Queue) (key : Key) : Queue :=
  match q.add? key with
  | .ok q => q
  | .error _ => q

/-- Puts a key in after a delay, unless the queue is shut. No delay at all puts it in at once, and a
delay that does not end before one already running changes nothing. -/
def addAfter? (q : Queue) (now : Moment) (key : Key) (delay : Span) : Except Refusal Queue :=
  if delay.nanos = 0 then q.add? key
  else if q.closed then .error .queueShutdown
  else
    let deadline := now + delay.nanos
    -- a later deadline would add nothing to the one that is noted
    let sooner := match q.delayed[key]? with
      | some existing => decide (existing ≤ deadline)
      | none => false
    if sooner then .ok q
    else .ok { q with delayed := q.delayed.insert key deadline, timers := q.timers ++ [(key, deadline)] }

/-- Puts a key in after a delay; a queue that is shut stays as it is. -/
def addAfter (q : Queue) (now : Moment) (key : Key) (delay : Span) : Queue :=
  match q.addAfter? now key delay with
  | .ok q => q
  | .error _ => q

/-- A timer goes off: the key is put in if this timer is the one that counts. -/
def fire (q : Queue) (key : Key) (deadline : Moment) : Queue :=
  let q := { q with timers := q.timers.erase (key, deadline) }
  -- a timer whose delay gave way to a shorter one finds another deadline here, or none
  if q.delayed[key]? = some deadline then
    let q := { q with delayed := q.delayed.erase key }
    if q.closed then q else q.insert key
  else q

/-! ## Taking keys out -/

/-- What one who asks for a key is told. -/
inductive Reply (ρ : Type) where
  /-- here is a key, and what was said along with it -/
  | taken (key : Key) (extra : ρ)
  /-- there will be no more keys -/
  | closed
  /-- wait until the bell calls -/
  | waiting

/-- Asks for a key; `take` changes `s` together with taking it out. -/
def getWith {σ ρ : Type} (q : Queue) (ticket : Ticket) (take : Key → σ → ρ × σ) (s : σ) : Reply ρ × σ × Queue :=
  let q := { q with bell := q.bell.arrive ticket }
  match q.pending with
  | key :: pending =>
    let (extra, s) := take key s
    (.taken key extra, s,
      { q with pending := pending, queued := q.queued.erase key, processing := q.processing.insert key })
  -- what waits is handed out first, also after shutting
  | [] => if q.closed then (.closed, s, q) else (.waiting, s, { q with bell := q.bell.wait ticket })

/-- Asks for a key. -/
def get (q : Queue) (ticket : Ticket) : Reply Unit × Queue :=
  let (reply, _, q) := q.getWith ticket (fun _ s => ((), s)) ()
  (reply, q)

/-- One who waits gives up. -/
def abandon (q : Queue) (ticket : Ticket) : Queue := { q with bell := q.bell.leave ticket }

/-- The holder of a key is done with it; if it came again meanwhile it is put in, even after
shutting. -/
def done (q : Queue) (key : Key) : Queue :=
  let q := { q with processing := q.processing.erase key }
  if key ∈ q.dirty then { q with dirty := q.dirty.erase key }.append key else q

/-- Shuts the queue and calls everybody; returns the delayed keys that it forgets. A `WorkQueue`
returns them in the order in which its table happens to hold them; here they are sorted, as the keys
of a `Table` always are, so nothing should be made of their order. -/
def shutDown (q : Queue) : List Key × Queue :=
  if q.closed then ([], q)
  else (q.delayed.keys, { q with closed := true, delayed := ∅, bell := q.bell.ringAll })

/-- How many keys wait. -/
def length (q : Queue) : Nat := q.pending.length

end Queue

end ControlLoop
