import ControlLoop.Json.Fields
import ControlLoop.Key

/-!
# Events

An `InputEvent` is what a daemon is told about an object: it is put (with its tenant and a free-form
specification) or taken away. An event is written as an object with a `type`; it may also be given
as an array of its parts. The type may stand anywhere among the fields, a field that the event knows
may stand only once, and all other fields are passed over, although they have to be JSON with a
meaning.
-/

namespace ControlLoop

open Json

/-- A change of an object. -/
inductive Event where
  /-- the object is created or replaced -/
  | upsert (id : Key) (tenant : String) (spec : Value)
  /-- the object is removed -/
  | delete (id : Key)

namespace Event

/-- The key of the object. -/
def id : Event → Key
  | upsert id _ _ | delete id => id

/-! ## Writing -/

/-- The event as a JSON value. -/
def toJson : Event → Value
  | upsert id tenant spec =>
    .object [("type", .string "upsert"), ("id", .string id), ("tenant", .string tenant), ("spec", spec)]
  | delete id => .object [("type", .string "delete"), ("id", .string id)]

/-- The event as text. -/
def text (e : Event) : String := e.toJson.text

/-! ## Reading -/

/-- The event that some fields describe. -/
def ofFields? (fields : List (String × Value)) : Option Event := do
  let type ← onlyString? "type" fields
  if type = "upsert" then
    return upsert (← onlyString? "id" fields) (← onlyString? "tenant" fields) (← atMostOne? "spec" fields)
  else if type = "delete" then
    return delete (← onlyString? "id" fields)
  else none

/-- The event whose parts an array lists. -/
def ofItems? : List Value → Option Event
  | [.string "upsert", .string id, .string tenant] => some (upsert id tenant .null)
  | [.string "upsert", .string id, .string tenant, spec] => some (upsert id tenant spec)
  | [.string "delete", .string id] => some (delete id)
  | _ => none

/-- The event that a tree describes. -/
def ofTree? : Tree → Option Event
  | .object fields => (meanings? (Value.maxDepth - 1) fields).bind ofFields?
  | .array items => (Value.ofItems? (Value.maxDepth - 1) items).bind ofItems?
  | _ => none

/-- The event that a line describes. -/
def parse? (line : String) : Option Event := (Tree.ofText? line).bind ofTree?

end Event

end ControlLoop
