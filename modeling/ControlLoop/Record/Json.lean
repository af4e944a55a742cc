import ControlLoop.Json.Fields
import ControlLoop.Record.Basic
import ControlLoop.Time.Rfc3339

/-!
# Records in JSON

A `SyncInfo` is written as an object with seven fields. It is read from such an object in any order,
or from an array of the seven values in order. Fields it does not know are passed over unread, known
ones may stand only once. A duration takes no field but its two, and an outcome is told by its
`status`.
-/

namespace ControlLoop

open Json

/-! ## Uuids -/

namespace Uuid

/-- The hexadecimal digits of a number, `width` of them. -/
def hexDigits : (width n : Nat) → List Char
  | 0, _ => []
  | width + 1, n => hexDigits width (n / 16) ++ [Nat.digitChar (n % 16)]

/-- The written form: lower-case digits in groups of 8, 4, 4, 4 and 12. -/
def chars (u : Uuid) : List Char :=
  hexDigits 8 (u.value / 2 ^ 96) ++ '-' :: hexDigits 4 (u.value / 2 ^ 80) ++ '-' :: hexDigits 4 (u.value / 2 ^ 64) ++
    '-' :: hexDigits 4 (u.value / 2 ^ 48) ++ '-' :: hexDigits 12 u.value

/-- The written form as a string. -/
def text (u : Uuid) : String := String.ofList u.chars

/-- The number that hexadecimal digits in either case write. -/
def hexValue? (cs : List Char) : Option Nat :=
  cs.foldl (fun n c => n.bind fun n => (Tree.hexDigit? c).map (n * 16 + ·)) (some 0)

/-- The digits of a hyphenated form, if its hyphens are in place. -/
def withoutHyphens? (cs : List Char) : Option (List Char) :=
  if cs.length = 36 ∧ cs[8]? = some '-' ∧ cs[13]? = some '-' ∧ cs[18]? = some '-' ∧ cs[23]? = some '-' then
    some ((cs.take 8) ++ (cs.drop 9).take 4 ++ (cs.drop 14).take 4 ++ (cs.drop 19).take 4 ++ cs.drop 24)
  else none

/-- The digits of any accepted form: plain, hyphenated, hyphenated in braces, or as a name of type
`urn:uuid`, which may be written in either case. -/
def digits? (cs : List Char) : Option (List Char) :=
  if cs.length = 32 then some cs
  else if cs.length = 36 then withoutHyphens? cs
  else if cs.length = 38 ∧ cs[0]? = some '\x7b' ∧ cs[37]? = some '\x7d' then withoutHyphens? ((cs.drop 1).take 36)
  else if cs.length = 45 ∧ (cs.take 9).map Char.toLower = "urn:uuid:".toList then withoutHyphens? (cs.drop 9)
  else none

/-- The uuid that a text names. -/
def ofChars? (cs : List Char) : Option Uuid := do
  let n ← hexValue? (← digits? cs)
  if h : n < 2 ^ 128 then some ⟨n, h⟩ else none

end Uuid

namespace Record

/-! ## Reading the values -/

/-- A string. -/
def readString? : Tree → Option String
  | Tree.string s => s
  | _ => none

/-- A whole number below `bound`. -/
def readNumber? (bound : Nat) : Tree → Option Nat
  | .number (some (.whole (.ofNat n))) => if n < bound then some n else none
  | _ => none

/-- A uuid. -/
def readUuid? (t : Tree) : Option Uuid := (readString? t).bind fun s => Uuid.ofChars? s.toList

/-- A timestamp. -/
def readTimestamp? (t : Tree) : Option Timestamp := (readString? t).bind Timestamp.ofText?

/-- A trigger: its name, or an object whose only field has that name and is null. -/
def readTrigger? : Tree → Option Trigger
  | .string (some s) => Trigger.ofName? s
  | .object [(some s, .null)] => Trigger.ofName? s
  | _ => none

/-- A duration of seconds and nanoseconds, of which there may be more than a second. -/
def readSpan? : Tree → Option Span
  | .object fields => do
    let fields ← namedFields? fields
    if fields.all (fun field => field.1 = "secs" || field.1 = "nanos") then
      let secs ← readNumber? (2 ^ 64) (← only? "secs" fields)
      let nanos ← readNumber? (2 ^ 32) (← only? "nanos" fields)
      Span.ofParts? secs nanos
    else none
  | .array [secs, nanos] => do
    Span.ofParts? (← readNumber? (2 ^ 64) secs) (← readNumber? (2 ^ 32) nanos)
  | _ => none

/-- The outcome with a status, given its error if it has one. -/
def outcome? (status : String) (error : Option String) : Option Outcome :=
  match status with
  | "success" => some .success
  | "failure" => error.map .failure
  | "failureFinal" => error.map .failureFinal
  | _ => none

/-- An outcome: an object with a status, or an array that begins with it. -/
def readOutcome? : Tree → Option Outcome
  | .object fields => do
    let fields ← meanings? (Value.maxDepth - 2) fields
    outcome? (← onlyString? "status" fields) (onlyString? "error" fields)
  | .array items =>
    match Value.ofItems? (Value.maxDepth - 2) items with
    | some [.string "success"] => some .success
    | some [.string status, .string error] => if status = "success" then none else outcome? status (some error)
    | _ => none
  | _ => none

/-! ## Records -/

/-- The record with some values. -/
def ofValues? (attempt key trigger startedAt duration outcome retryCount : Tree) : Option Record := do
  return {
    attempt := ← readUuid? attempt
    key := ← readString? key
    trigger := ← readTrigger? trigger
    startedAt := ← readTimestamp? startedAt
    duration := ← readSpan? duration
    outcome := ← readOutcome? outcome
    retryCount := ← readNumber? (2 ^ 32) retryCount }

/-- The record that a tree describes. -/
def ofTree? : Tree → Option Record
  | .object fields => do
    let fields ← namedFields? fields
    ofValues? (← only? "attemptId" fields) (← only? "key" fields) (← only? "trigger" fields)
      (← only? "startedAt" fields) (← only? "duration" fields) (← only? "outcome" fields)
      (← only? "retryCount" fields)
  | .array [attempt, key, trigger, startedAt, duration, outcome, retryCount] =>
    ofValues? attempt key trigger startedAt duration outcome retryCount
  | _ => none

/-- The record that a JSON text describes. -/
def parse? (s : String) : Option Record := (Tree.ofText? s).bind ofTree?

/-! ## Writing -/

/-- A duration as a JSON value. -/
def spanJson (d : Span) : Value :=
  .object [("secs", .ofNat d.seconds), ("nanos", .ofNat d.subsecond)]

/-- An outcome as a JSON value. -/
def outcomeJson : Outcome → Value
  | .success => .object [("status", .string "success")]
  | .failure error => .object [("status", .string "failure"), ("error", .string error)]
  | .failureFinal error => .object [("status", .string "failureFinal"), ("error", .string error)]

/-- The fields of a record but for its attempt. -/
def fieldsJson (r : Record) : List (String × Value) :=
  [("key", .string r.key), ("trigger", .string r.trigger.name), ("startedAt", .string r.startedAt.text),
    ("duration", spanJson r.duration), ("outcome", outcomeJson r.outcome), ("retryCount", .ofNat r.retryCount)]

/-- A record as a JSON value. -/
def toJson (r : Record) : Value := .object (("attemptId", .string r.attempt.text) :: r.fieldsJson)

/-- A record as text. -/
def text (r : Record) : String := r.toJson.text

end Record

end ControlLoop
