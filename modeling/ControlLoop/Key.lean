import Std.Data.ExtTreeMap
import Std.Data.ExtTreeSet

/-!
# Keys and tables

Everything the loop works on goes by a name: an object by its `ObjectKey`, an index by its
`IndexName`, a bucket by its `IndexedValue`. Tables and sets of names are extensional: two with the
same content are equal, whatever the order in which they were filled, and both list their content in
the order of the names' code points.
-/

namespace ControlLoop

/-- The name under which an object is stored, queued and recorded. -/
abbrev Key := String

/-- A finite table from names to `α`. -/
abbrev Table (α : Type) := Std.ExtTreeMap String α compare

/-- A finite set of names. -/
abbrev Names := Std.ExtTreeSet String compare

end ControlLoop
