import ControlLoop.Json.Number

/-!
# JSON as it is written

A `Tree` keeps what the spelling of a JSON text says and no more: fields in their order, repeated
ones too, strings that are no Unicode text because of a surrogate without its partner, and numerals
beyond the doubles. Whoever reads a tree decides what of it counts, so that a reader can pass over a
field without looking at what is wrong inside.
-/

namespace ControlLoop.Json

/-- A JSON text, field by field. -/
inductive Tree where
  /-- `null` -/
  | null
  /-- `true` or `false` -/
  | bool (b : Bool)
  /-- a number, if it is one -/
  | number (n : Option Number)
  /-- a string, if it is Unicode text -/
  | string (s : Option String)
  /-- an array -/
  | array (items : List Tree)
  /-- an object with its fields in order -/
  | object (fields : List (Option String × Tree))

namespace Tree

instance : Inhabited Tree := ⟨null⟩

/-! ## Strings -/

/-- A character of a string as it is spelled: itself, or a UTF-16 unit in hexadecimal. -/
inductive Piece where
  /-- a character -/
  | char (c : Char)
  /-- a unit -/
  | unit (n : Nat)

/-- The value of a hexadecimal digit. -/
def hexDigit? (c : Char) : Option Nat :=
  if c.isDigit then some (c.toNat - '0'.toNat)
  else if 'a' ≤ c ∧ c ≤ 'f' then some (c.toNat - 'a'.toNat + 10)
  else if 'A' ≤ c ∧ c ≤ 'F' then some (c.toNat - 'A'.toNat + 10)
  else none

/-- The value of four hexadecimal digits. -/
def hexUnit? (a b c d : Char) : Option Nat := do
  return (((← hexDigit? a) * 16 + (← hexDigit? b)) * 16 + (← hexDigit? c)) * 16 + (← hexDigit? d)

/-- The character that a backslash and a letter stand for. -/
def escaped? : Char → Option Char
  | '"' => some '"'
  | '\\' => some '\\'
  | '/' => some '/'
  | 'b' => some '\x08'
  | 'f' => some '\x0c'
  | 'n' => some '\n'
  | 'r' => some '\r'
  | 't' => some '\t'
  | _ => none

/-- The pieces of a string up to its closing quote, and what follows. -/
def readPieces : List Char → Option (List Piece × List Char)
  | [] => none
  | '"' :: cs => some ([], cs)
  | '\\' :: 'u' :: a :: b :: c :: d :: cs =>
    match hexUnit? a b c d with
    | none => none
    | some n => (readPieces cs).map fun (pieces, rest) => (.unit n :: pieces, rest)
  | '\\' :: c :: cs =>
    match escaped? c with
    | none => none
    | some c => (readPieces cs).map fun (pieces, rest) => (.char c :: pieces, rest)
  | c :: cs =>
    if c.toNat < 0x20 then none
    else (readPieces cs).map fun (pieces, rest) => (.char c :: pieces, rest)

/-- The text of some pieces: a high surrogate joins the low one after it, and none stands alone. -/
def join? : List Piece → Option (List Char)
  | [] => some []
  | .char c :: pieces => (join? pieces).map (c :: ·)
  | .unit high :: .unit low :: pieces =>
    -- a high surrogate takes the unit after it along, and only a low one will do
    if 0xD800 ≤ high ∧ high ≤ 0xDBFF then
      if 0xDC00 ≤ low ∧ low ≤ 0xDFFF then
        (join? pieces).map (Char.ofNat (0x10000 + (high - 0xD800) * 0x400 + (low - 0xDC00)) :: ·)
      else none
    else if 0xDC00 ≤ high ∧ high ≤ 0xDFFF then none
    else (join? (.unit low :: pieces)).map (Char.ofNat high :: ·)
  | .unit n :: pieces =>
    if 0xD800 ≤ n ∧ n ≤ 0xDFFF then none else (join? pieces).map (Char.ofNat n :: ·)

/-- A string from behind its opening quote. -/
def readString (cs : List Char) : Option (Option String × List Char) :=
  (readPieces cs).map fun (pieces, rest) => ((join? pieces).map String.ofList, rest)

/-! ## Values -/

/-- The characters that may stand around every token. -/
def isSpace (c : Char) : Bool := c == ' ' || c == '\t' || c == '\n' || c == '\r'

/-- Drops the space in front. -/
def skip (cs : List Char) : List Char := cs.dropWhile isSpace

/-- What follows `word`, if the text begins with it. -/
def readWord : (word cs : List Char) → Option (List Char)
  | [], cs => some cs
  | w :: word, c :: cs => if w = c then readWord word cs else none
  | _ :: _, [] => none

/-- A number in front of the text. -/
def readNumber (cs : List Char) : Option (Tree × List Char) :=
  (Numeral.read cs).map fun (n, rest) => (.number n.value?, rest)

mutual

/-- A value in front of the text, after space. Each call on less text takes one unit of `fuel`. -/
def readValue : (fuel : Nat) → List Char → Option (Tree × List Char)
  | 0, _ => none
  | fuel + 1, cs =>
    match skip cs with
    | [] => none
    | '"' :: cs => (readString cs).map fun (s, rest) => (.string s, rest)
    | '[' :: cs =>
      match skip cs with
      | ']' :: rest => some (.array [], rest)
      | cs => (readItems fuel cs).map fun (items, rest) => (.array items, rest)
    | '\x7b' :: cs =>
      match skip cs with
      | '\x7d' :: rest => some (.object [], rest)
      | cs => (readFields fuel cs).map fun (fields, rest) => (.object fields, rest)
    | 'n' :: cs => (readWord ['u', 'l', 'l'] cs).map fun rest => (.null, rest)
    | 't' :: cs => (readWord ['r', 'u', 'e'] cs).map fun rest => (.bool true, rest)
    | 'f' :: cs => (readWord ['a', 'l', 's', 'e'] cs).map fun rest => (.bool false, rest)
    | cs => readNumber cs

/-- The items of an array up to its closing bracket. -/
def readItems : (fuel : Nat) → List Char → Option (List Tree × List Char)
  | 0, _ => none
  | fuel + 1, cs =>
    match readValue fuel cs with
    | none => none
    | some (item, rest) =>
      match skip rest with
      | ',' :: rest => (readItems fuel rest).map fun (items, rest) => (item :: items, rest)
      | ']' :: rest => some ([item], rest)
      | _ => none

/-- The fields of an object up to its closing brace. -/
def readFields : (fuel : Nat) → List Char → Option (List (Option String × Tree) × List Char)
  | 0, _ => none
  | fuel + 1, cs =>
    match skip cs with
    | '"' :: cs =>
      match readString cs with
      | none => none
      | some (name, rest) =>
        match skip rest with
        | ':' :: rest =>
          match readValue fuel rest with
          | none => none
          | some (value, rest) =>
            match skip rest with
            | ',' :: rest => (readFields fuel rest).map fun (fields, rest) => ((name, value) :: fields, rest)
            | '\x7d' :: rest => some ([(name, value)], rest)
            | _ => none
        | _ => none
    | _ => none

end

/-- The tree of a text that is one JSON value and nothing else. -/
def ofChars? (cs : List Char) : Option Tree :=
  match readValue (2 * cs.length + 1) cs with
  | some (t, rest) => if skip rest = [] then some t else none
  | none => none

/-- The tree of a string. -/
def ofText? (s : String) : Option Tree := ofChars? s.toList

end Tree

end ControlLoop.Json
