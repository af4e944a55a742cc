import ControlLoop.Json.Value

/-!
# The fields of objects

Reading an object field by field, as an `InputEvent` and a `SyncInfo` are read: its fields with all
their names, or with the meaning of everything in them, and the values of a name. Both keep the
order and repeated fields.
-/

namespace ControlLoop.Json

/-- An object's fields as they are spelled, if all their names are text. -/
def namedFields? : List (Option String × Tree) → Option (List (String × Tree))
  | [] => some []
  | (some name, value) :: fields => (namedFields? fields).map ((name, value) :: ·)
  | (none, _) :: _ => none

/-- An object's fields with their meaning, if all of them have one and nest at most `depth` deep. -/
def meanings? (depth : Nat) : List (Option String × Tree) → Option (List (String × Value))
  | [] => some []
  | field :: fields =>
    match Value.ofField? depth field, meanings? depth fields with
    | some field, some fields => some (field :: fields)
    | _, _ => none

/-- The values of all fields called `name`. -/
def valuesOf {α : Type} (name : String) (fields : List (String × α)) : List α :=
  (fields.filter (·.1 = name)).map (·.2)

/-- The value of the only field called `name`. -/
def only? {α : Type} (name : String) (fields : List (String × α)) : Option α :=
  match valuesOf name fields with
  | [v] => some v
  | _ => none

/-- The string that a value is. -/
def Value.string? : Value → Option String
  | string s => some s
  | _ => none

/-- The string in the only field called `name`. -/
def onlyString? (name : String) (fields : List (String × Value)) : Option String :=
  (only? name fields).bind Value.string?

/-- The value of the field called `name`: null if there is none, and nothing if there are two. -/
def atMostOne? (name : String) (fields : List (String × Value)) : Option Value :=
  match valuesOf name fields with
  | [] => some .null
  | [v] => some v
  | _ => none

end ControlLoop.Json
