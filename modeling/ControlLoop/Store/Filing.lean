import ControlLoop.Key

/-!
# One index

A filing is the `IndexState` of one index. It files keys under values: a bucket for each value holds
the keys filed under it, and for each key the values are noted under which it was filed last. Filing
a key anew touches only the buckets that change, and a bucket that loses its last key is thrown
away.
-/

namespace ControlLoop

/-- The buckets of an index. -/
structure Filing where
  /-- the keys by value -/
  buckets : Table Names
  /-- the values under which each key was filed last; no entry for a key without values -/
  recorded : Table (List String)

namespace Filing

/-- An index without keys. -/
def empty : Filing := ⟨∅, ∅⟩

/-- The bucket of a value; none if no key is filed under it. -/
def bucket? (f : Filing) (value : String) : Option Names := f.buckets[value]?

/-- The values under which a key is filed. -/
def valuesOf (f : Filing) (key : Key) : List String := f.recorded[key]?.getD []

/-- Puts a key into the bucket of a value. -/
def enter (key : Key) (buckets : Table Names) (value : String) : Table Names :=
  buckets.insert value ((buckets[value]?.getD ∅).insert key)

/-- Takes a key out of the bucket of a value, and the bucket away if it is empty then. -/
def leave (key : Key) (buckets : Table Names) (value : String) : Table Names :=
  match buckets[value]? with
  | none => buckets
  | some bucket =>
    let bucket := bucket.erase key
    if bucket.isEmpty then buckets.erase value else buckets.insert value bucket

/-- Files a key under some values and no others. -/
def file (f : Filing) (key : Key) (values : List String) : Filing :=
  let old := f.valuesOf key
  -- a value that stays keeps its bucket untouched
  let left := (old.filter (· ∉ values)).foldl (leave key) f.buckets
  let buckets := (values.filter (· ∉ old)).foldl (enter key) left
  ⟨buckets, if values.isEmpty then f.recorded.erase key else f.recorded.insert key values⟩

/-- Takes a key out of the index. -/
def purge (f : Filing) (key : Key) : Filing :=
  ⟨(f.valuesOf key).foldl (leave key) f.buckets, f.recorded.erase key⟩

end Filing

end ControlLoop
