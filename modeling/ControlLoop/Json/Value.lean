import ControlLoop.Json.Tree

/-!
# JSON values

A `Value`, as the `spec` of an object, is what a JSON text means: numbers and strings that exist,
and objects in which every name occurs once. Of a tree it is made strictly: everything in it must
have a meaning, and it must not nest deeper than a limit; of fields with the same name the last one
counts.
-/

namespace ControlLoop.Json

/-- What a JSON text means. -/
inductive Value where
  /-- `null` -/
  | null
  /-- `true` or `false` -/
  | bool (b : Bool)
  /-- a number -/
  | number (n : Number)
  /-- a string -/
  | string (s : String)
  /-- an array -/
  | array (items : List Value)
  /-- an object; no name occurs twice -/
  | object (fields : List (String × Value))

namespace Value

instance : Inhabited Value := ⟨null⟩

/-- How deep arrays and objects may nest. -/
def maxDepth : Nat := 127

/-! ## Objects -/

/-- Puts a field into an object: in place of the one with its name, or at the end. -/
def put (fields : List (String × Value)) (name : String) (value : Value) : List (String × Value) :=
  match fields with
  | [] => [(name, value)]
  | field :: fields =>
    if field.1 = name then (name, value) :: fields else field :: put fields name value

/-- The field `name` of an object. -/
def get? (v : Value) (name : String) : Option Value :=
  match v with
  | object fields => (fields.find? (·.1 = name)).map (·.2)
  | _ => none

theorem get?_put (fields : List (String × Value)) (name : String) (value : Value) :
    (object (put fields name value)).get? name = some value := by
  simp only [get?]
  fun_induction put fields name value with
  | case1 => simp
  | case2 => simp
  | case3 field fields hne ih => simp [hne, ih]

/-! ## From trees -/

mutual

/-- The meaning of a tree, if all of it has one and it nests at most `depth` deep. -/
def ofTree? (depth : Nat) : Tree → Option Value
  | .null => some null
  | .bool b => some (bool b)
  | .number n => n.map number
  | .string s => s.map string
  | .array items =>
    match depth with
    | 0 => none
    | depth + 1 => (ofItems? depth items).map array
  | .object fields =>
    match depth with
    | 0 => none
    | depth + 1 => (ofFields? depth [] fields).map object

/-- The meaning of the items of an array. -/
def ofItems? (depth : Nat) : List Tree → Option (List Value)
  | [] => some []
  | item :: items =>
    match ofTree? depth item, ofItems? depth items with
    | some item, some items => some (item :: items)
    | _, _ => none

/-- Adds the meaning of more fields to those of an object. -/
def ofFields? (depth : Nat) (known : List (String × Value)) :
    List (Option String × Tree) → Option (List (String × Value))
  | [] => some known
  | field :: fields =>
    match ofField? depth field with
    | some (name, value) => ofFields? depth (put known name value) fields
    | none => none

/-- The meaning of a field. -/
def ofField? (depth : Nat) : Option String × Tree → Option (String × Value)
  | (some name, value) => (ofTree? depth value).map fun value => (name, value)
  | (none, _) => none

end

/-- The meaning of a text. -/
def ofText? (s : String) : Option Value := (Tree.ofText? s).bind (ofTree? maxDepth)

/-! ## Writing -/

/-- The hexadecimal digits of a number below 256. -/
def hexPair (n : Nat) : List Char := [Nat.digitChar (n / 16), Nat.digitChar (n % 16)]

/-- A character inside a string: quotes, backslashes and control characters are escaped. -/
def escape (c : Char) : List Char :=
  if c = '"' then ['\\', '"']
  else if c = '\\' then ['\\', '\\']
  else if c = '\x08' then ['\\', 'b']
  else if c = '\x0c' then ['\\', 'f']
  else if c = '\n' then ['\\', 'n']
  else if c = '\r' then ['\\', 'r']
  else if c = '\t' then ['\\', 't']
  else if c.toNat < 0x20 then '\\' :: 'u' :: '0' :: '0' :: hexPair c.toNat
  else [c]

/-- A string between its quotes. -/
def quote (s : String) : List Char := '"' :: s.toList.flatMap escape ++ ['"']

mutual

/-- The text of a value, without space. -/
def chars : Value → List Char
  | null => ['n', 'u', 'l', 'l']
  | bool true => ['t', 'r', 'u', 'e']
  | bool false => ['f', 'a', 'l', 's', 'e']
  | number n => n.chars
  | string s => quote s
  | array [] => ['[', ']']
  | array (item :: items) => '[' :: chars item ++ itemChars items
  | object [] => ['\x7b', '\x7d']
  | object ((name, value) :: fields) =>
    '\x7b' :: quote name ++ ':' :: chars value ++ fieldChars fields

/-- The text of the further items of an array, with its bracket. -/
def itemChars : List Value → List Char
  | [] => [']']
  | item :: items => ',' :: chars item ++ itemChars items

/-- The text of the further fields of an object, with its brace. -/
def fieldChars : List (String × Value) → List Char
  | [] => ['\x7d']
  | (name, value) :: fields => ',' :: quote name ++ ':' :: chars value ++ fieldChars fields

end

/-- The text of a value as a string. -/
def text (v : Value) : String := String.ofList v.chars

/-- A line end and the space in front of what stands `depth` levels deep. -/
def newline (depth : Nat) : List Char := '\n' :: List.replicate (2 * depth) ' '

mutual

/-- The text of a value `depth` levels deep, with one item or field a line. -/
def prettyChars (depth : Nat) : Value → List Char
  | array (item :: items) =>
    '[' :: newline (depth + 1) ++ prettyChars (depth + 1) item ++ prettyItems (depth + 1) items
  | object ((name, value) :: fields) =>
    '\x7b' :: newline (depth + 1) ++ quote name ++ ':' :: ' ' :: prettyChars (depth + 1) value ++
      prettyFields (depth + 1) fields
  | v => v.chars

/-- The lines of the further items of an array, with its bracket. -/
def prettyItems (depth : Nat) : List Value → List Char
  | [] => newline (depth - 1) ++ [']']
  | item :: items => ',' :: newline depth ++ prettyChars depth item ++ prettyItems depth items

/-- The lines of the further fields of an object, with its brace. -/
def prettyFields (depth : Nat) : List (String × Value) → List Char
  | [] => newline (depth - 1) ++ ['\x7d']
  | (name, value) :: fields =>
    ',' :: newline depth ++ quote name ++ ':' :: ' ' :: prettyChars depth value ++ prettyFields depth fields

end

/-- The text of a value with one item or field a line. -/
def pretty (v : Value) : String := String.ofList (prettyChars 0 v)

/-- A whole number as a value. -/
def ofNat (n : Nat) : Value := number (.whole n)

end Value

end ControlLoop.Json
