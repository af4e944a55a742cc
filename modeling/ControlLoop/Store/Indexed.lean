import ControlLoop.Refusal
import ControlLoop.Store.Filing
import ControlLoop.Text.Quoted

/-!
# The indexed store

A store is an `IndexedStore`, or a `ThreadSafeStore`, which does each of its calls under one lock.
It keeps objects under keys and any number of indices over them. An index function maps an object to
the values it is filed under, or rejects it; a store refuses an object that one of its functions
rejects, and then nothing of it has changed. Objects already stored are filed into an index that is
registered later.
-/

namespace ControlLoop

/-- Maps an object to the values an index files it under, or says why it cannot be filed. -/
abbrev IndexFunction (α : Type) := α → Except String (List String)

/-- A value once, where it occurs first. -/
def distinct : (seen : Names) → List String → List String
  | _, [] => []
  | seen, v :: vs => if v ∈ seen then distinct seen vs else v :: distinct (seen.insert v) vs

namespace IndexFunction

/-- The values under which the index called `index` files the object `a` of a key, each once. -/
def valuesFor {α : Type} (index : String) (f : IndexFunction α) (key : Key) (a : α) :
    Except Refusal (List String) :=
  match f a with
  | .ok values => .ok (distinct ∅ values)
  | .error reason => .error (.indexFunction index key reason)

end IndexFunction

/-- Objects under keys, with indices over them. -/
structure Store (α : Type) where
  /-- the objects -/
  items : Table α
  /-- the index functions by name -/
  functions : Table (IndexFunction α)
  /-- the indices by name -/
  indices : Table Filing

namespace Store

variable {α : Type}

/-- An empty store with some indices. -/
def withFunctions (functions : Table (IndexFunction α)) : Store α :=
  ⟨∅, functions, functions.map fun _ _ => Filing.empty⟩

/-- An empty store without indices. -/
def empty : Store α := withFunctions ∅

/-! ## Changes -/

/-- The values of an object in some indices. -/
def valuesIn (key : Key) (a : α) : List (String × IndexFunction α) →
    Except Refusal (List (String × List String))
  | [] => .ok []
  | (name, f) :: functions => do
    let values ← f.valuesFor name key a
    let others ← valuesIn key a functions
    return (name, values) :: others

/-- Files a key in the indices named. -/
def fileIn (key : Key) (indices : Table Filing) (values : List (String × List String)) : Table Filing :=
  values.foldl (fun indices (name, values) => indices.modify name (·.file key values)) indices

/-- Puts an object under a key, in place of what was there. -/
def add (s : Store α) (key : Key) (a : α) : Except Refusal (Store α) := do
  let values ← valuesIn key a s.functions.toList
  return { s with items := s.items.insert key a, indices := fileIn key s.indices values }

/-- Another name for `add`. -/
def update (s : Store α) (key : Key) (a : α) : Except Refusal (Store α) := s.add key a

/-- Removes the object under a key; returns it. -/
def delete (s : Store α) (key : Key) : Option α × Store α :=
  match s.items[key]? with
  | none => (none, s)
  | some a => (some a, { s with items := s.items.erase key, indices := s.indices.map fun _ f => f.purge key })

/-- Adds objects one after the other. -/
def addAll (s : Store α) : List (Key × α) → Except Refusal (Store α)
  | [] => .ok s
  | (key, a) :: items => do (← s.add key a).addAll items

/-- Replaces all objects, building each index anew. -/
def replace (s : Store α) (items : List (Key × α)) : Except Refusal (Store α) :=
  (withFunctions s.functions).addAll items

/-- Files objects into an index. -/
def fill (name : String) (f : IndexFunction α) (filing : Filing) : List (Key × α) → Except Refusal Filing
  | [] => .ok filing
  | (key, a) :: items => do
    let values ← f.valuesFor name key a
    fill name f (filing.file key values) items

/-- The indices of some functions, filled with objects. -/
def build (items : List (Key × α)) : List (String × IndexFunction α) → Except Refusal (List (String × Filing))
  | [] => .ok []
  | (name, f) :: functions => do
    let filing ← fill name f Filing.empty items
    let others ← build items functions
    return (name, filing) :: others

/-- Registers more indices; what is stored is filed in them. -/
def addFunctions (s : Store α) (new : Table (IndexFunction α)) : Except Refusal (Store α) :=
  match new.keys.find? (· ∈ s.functions) with
  | some name => .error (.alreadyRegistered name)
  | none => do
    let filings ← build s.items.toList new.toList
    return { s with functions := s.functions.insertMany new.toList, indices := s.indices.insertMany filings }

/-! ## Questions -/

/-- The object under a key. -/
def get? (s : Store α) (key : Key) : Option α := s.items[key]?

/-- Is there an object under a key? -/
def contains (s : Store α) (key : Key) : Bool := s.items.contains key

/-- How many objects there are. -/
def size (s : Store α) : Nat := s.items.size

/-- The keys, in order. -/
def keys (s : Store α) : List Key := s.items.keys

/-- The objects, in the order of their keys. -/
def objects (s : Store α) : List α := s.items.values

/-- The index with a name. -/
def filing (s : Store α) (index : String) : Except Refusal Filing :=
  match s.indices[index]? with
  | some f => .ok f
  | none => .error (.indexNotFound index)

/-- The keys filed under a value. -/
def indexKeys (s : Store α) (index value : String) : Except Refusal (List Key) := do
  let f ← s.filing index
  return (f.bucket? value).elim [] (·.toList)

/-- The objects filed under a value. -/
def byIndex (s : Store α) (index value : String) : Except Refusal (List α) := do
  let keys ← s.indexKeys index value
  return keys.filterMap s.get?

/-- The values under which anything is filed. -/
def indexedValues (s : Store α) (index : String) : Except Refusal (List String) := do
  let f ← s.filing index
  return f.buckets.keys

/-- The key that an error names for an object that need not be stored. -/
def unstoredKey : Key := "<unstored>"

/-- The keys filed under some values, each once. -/
def matchingKeys (s : Store α) (index : String) : (seen : Names) → (values : List String) →
    Except Refusal (List Key)
  | _, [] => .ok []
  | seen, value :: values => do
    let keys ← s.indexKeys index value
    let new := keys.filter (· ∉ seen)
    let others ← matchingKeys s index (seen.insertMany new) values
    return new ++ others

/-- The objects that share a value with `a`. -/
def index (s : Store α) (index : String) (a : α) : Except Refusal (List α) :=
  match s.functions[index]? with
  | none => .error (.indexNotFound index)
  | some f =>
    match f a with
    | .error reason => .error (.indexFunction index unstoredKey reason)
    | .ok values => do
      let keys ← s.matchingKeys index ∅ values
      return keys.filterMap s.get?

/-- The store as it shows itself: the number of its objects and the names of its indices. -/
def text (s : Store α) : String :=
  "IndexedStore \x7b items: " ++ toString s.size ++ ", indexers: " ++ Text.quotedList s.functions.keys ++ " \x7d"

end Store

end ControlLoop
