import ControlLoop.Proofs.Json.Fields
import ControlLoop.Proofs.Json.Spelling
import ControlLoop.Proofs.Json.Tokens

/-!
# Written values are read back

A value keeps its meaning in JSON if its numbers are whole and have 64 bits, the names in each of
its objects differ, and it does not nest too deep (`Fits`). Its text is then read as the tree that
spells it out (`Fits.ofText?_text`), and the meaning of that tree is the value again
(`Fits.ofTree?_toTree`).

Both halves follow the value. For the first it is enough that what is written is a text of the
grammar (`Fits.hasText`), as the reader takes those and makes the right tree of them.
-/

namespace ControlLoop.Json

namespace Value

open ControlLoop.Json.Tree

variable {depth : Nat} {v item value : Value} {items : List Value} {name : String}
  {fields : List (String × Value)}

/-! ## Values that keep their meaning -/

mutual

/-- The tree that spells a value out. -/
def toTree : Value → Tree
  | null => .null
  | bool b => .bool b
  | number n => .number (some n)
  | string s => .string (some s)
  | array items => .array (itemTrees items)
  | object fields => .object (fieldTrees fields)

/-- The trees of the items of an array. -/
def itemTrees : List Value → List Tree
  | [] => []
  | item :: items => toTree item :: itemTrees items

/-- The trees of the fields of an object. -/
def fieldTrees : List (String × Value) → List (Option String × Tree)
  | [] => []
  | (name, value) :: fields => (some name, toTree value) :: fieldTrees fields

end

/-- The value keeps its meaning in JSON: its numbers are whole and have 64 bits, no name occurs
twice in an object, and arrays and objects nest at most `depth` deep. Records are of this kind
(`Record.fits_toJson`). -/
inductive Fits : (depth : Nat) → Value → Prop
  | null (depth : Nat) : Fits depth null
  | bool (depth : Nat) (b : Bool) : Fits depth (bool b)
  | whole (depth : Nat) {n : Int} (low : -2 ^ 63 ≤ n) (high : n < 2 ^ 64) : Fits depth (number (.whole n))
  | string (depth : Nat) (s : String) : Fits depth (string s)
  | array {depth : Nat} {items : List Value} (fits : ∀ v ∈ items, Fits depth v) : Fits (depth + 1) (array items)
  | object {depth : Nat} {fields : List (String × Value)} (distinct : (fields.map (·.1)).Nodup)
      (fits : ∀ field ∈ fields, Fits depth field.2) : Fits (depth + 1) (object fields)

/-! ## The text spells the tree out -/

/-- The items of an array are written as a text of their trees. -/
theorem itemsText_chars (h : ∀ v ∈ item :: items, HasText v.toTree v.chars) :
    ∃ cs, item.chars ++ itemChars items = cs ++ [']'] ∧ ItemsText (item.toTree :: itemTrees items) cs := by
  induction items generalizing item with
  | nil => exact ⟨_, rfl, .last (h item List.mem_cons_self).padded⟩
  | cons next items ih =>
    obtain ⟨cs, hcs, hitems⟩ := ih fun v hv => h v (List.mem_cons_of_mem _ hv)
    refine ⟨_, ?_, .more (h item List.mem_cons_self).padded hitems⟩
    rw [itemChars, List.cons_append, hcs, List.append_assoc, List.cons_append]

/-- The fields of an object are written as a text of their trees. -/
theorem fieldsText_chars (name : String) (hvalue : HasText value.toTree value.chars)
    (h : ∀ field ∈ fields, HasText field.2.toTree field.2.chars) :
    ∃ cs, quote name ++ ':' :: value.chars ++ fieldChars fields = cs ++ ['\x7d'] ∧
      FieldsText ((some name, value.toTree) :: fieldTrees fields) cs := by
  induction fields generalizing name value with
  | nil =>
    refine ⟨_, ?_, .last (nameText_quote name) hvalue.padded⟩
    simp [fieldChars]
  | cons field fields ih =>
    obtain ⟨cs, hcs, hfields⟩ := ih field.1 (h _ List.mem_cons_self)
      fun field hfield => h field (List.mem_cons_of_mem _ hfield)
    refine ⟨_, ?_, .more (nameText_quote name) hvalue.padded hfields⟩
    simp [fieldChars, ← hcs]

/-- What is written for a value is a text of its tree. The induction is on the value: items and
fields are written between marks, without space. -/
theorem Fits.hasText (h : v.Fits depth) : HasText v.toTree v.chars := by
  induction h with
  | null => exact .null
  | bool _ b => cases b <;> constructor
  | @whole depth n low high =>
    have hnumber := HasText.number (Numeral.hasText_ofWhole n)
    rwa [Numeral.value?_ofWhole low high] at hnumber
  | string _ s => exact .string (stringText_quote s)
  | @array depth items hitems ih =>
    cases items with
    | nil => exact HasText.emptyArray space_nil
    | cons item items =>
      obtain ⟨cs, hcs, htext⟩ := itemsText_chars ih
      simpa [chars, toTree, itemTrees, hcs] using HasText.array htext
  | @object depth fields hdistinct hfields ih =>
    cases fields with
    | nil => exact HasText.emptyObject space_nil
    | cons field fields =>
      obtain ⟨cs, hcs, htext⟩ := fieldsText_chars field.1 (ih _ List.mem_cons_self)
        fun field hfield => ih field (List.mem_cons_of_mem _ hfield)
      simpa [chars, toTree, fieldTrees, ← hcs] using HasText.object htext

/-- The text of a value is read as its tree. -/
theorem Fits.ofText?_text (h : v.Fits depth) : Tree.ofText? v.text = some v.toTree := by
  rw [ofText?_eq_some_iff, SpelledBy, text, String.toList_ofList]
  exact h.hasText.padded

/-! ## The tree means the value

An object that is written has each name once, so no field takes the place of another when the fields
are put together again, and their order is the same. -/

/-- A value under a new name is put at the end. -/
theorem put_of_not_mem (h : name ∉ fields.map (·.1)) : put fields name value = fields ++ [(name, value)] := by
  induction fields with
  | nil => rfl
  | cons field fields ih =>
    obtain ⟨hne, hmem⟩ := not_or.mp (List.mem_cons.not.mp h)
    rw [put, if_neg (Ne.symm hne), ih hmem, List.cons_append]

/-- Items that are read back one by one are read back together. -/
theorem ofItems?_itemTrees (h : ∀ v ∈ items, ofTree? depth v.toTree = some v) :
    ofItems? depth (itemTrees items) = some items := by
  induction items with
  | nil => rfl
  | cons item items ih =>
    have hitem := h item List.mem_cons_self
    have hitems := ih fun v hv => h v (List.mem_cons_of_mem _ hv)
    simp only [itemTrees, ofItems?, hitem, hitems]

theorem ofField?_toTree (h : ofTree? depth value.toTree = some value) :
    ofField? depth (some name, value.toTree) = some (name, value) := by
  rw [ofField?, h, Option.map_some]

/-- Fields under different names are read back in their order, since each is put at the end. -/
theorem ofFields?_fieldTrees (known : List (String × Value)) (hdistinct : ((known ++ fields).map (·.1)).Nodup)
    (h : ∀ field ∈ fields, ofTree? depth field.2.toTree = some field.2) :
    ofFields? depth known (fieldTrees fields) = some (known ++ fields) := by
  induction fields generalizing known with
  | nil => rw [fieldTrees, ofFields?, List.append_nil]
  | cons field fields ih =>
    obtain ⟨name, value⟩ := field
    have hnew : name ∉ known.map (·.1) := by
      rw [List.map_append, List.map_cons, List.nodup_append] at hdistinct
      exact fun hmem => hdistinct.2.2 name hmem name List.mem_cons_self rfl
    have hfields := ih (known ++ [(name, value)]) (by simpa using hdistinct)
      fun field hfield => h field (List.mem_cons_of_mem _ hfield)
    simp only [fieldTrees, ofFields?, ofField?_toTree (h _ List.mem_cons_self), put_of_not_mem hnew]
    simpa using hfields

/-- The meaning of the tree is the value. -/
theorem Fits.ofTree?_toTree (h : v.Fits depth) : ofTree? depth v.toTree = some v := by
  induction h with
  | null | bool | whole | string => simp [toTree, ofTree?]
  | array _ ih => rw [toTree, ofTree?, ofItems?_itemTrees ih, Option.map_some]
  | @object depth fields hdistinct _ ih =>
    have hfields := ofFields?_fieldTrees [] hdistinct ih
    rw [toTree, ofTree?, hfields, Option.map_some, List.nil_append]

end Value

/-! ## The fields of a written object -/

variable {name : String} {v : Value} {fields : List (String × Value)}

/-- The names of a written object are text. -/
theorem namedFields?_fieldTrees (fields : List (String × Value)) :
    namedFields? (Value.fieldTrees fields) = some (fields.map fun field => (field.1, field.2.toTree)) := by
  induction fields with
  | nil => rfl
  | cons field fields ih => rw [Value.fieldTrees, namedFields?, ih, Option.map_some, List.map_cons]

/-- A field of a written object is found under its name. -/
theorem only?_toTree (hdistinct : (fields.map (·.1)).Nodup) (h : (name, v) ∈ fields) :
    only? name (fields.map fun field => (field.1, field.2.toTree)) = some v.toTree := by
  refine only?_of_mem ?_ (List.mem_map.mpr ⟨(name, v), h, rfl⟩)
  rw [List.map_map]
  exact hdistinct

/-- The fields of a written object mean what was written. -/
theorem meanings?_fieldTrees {depth : Nat} (h : ∀ field ∈ fields, field.2.Fits depth) :
    meanings? depth (Value.fieldTrees fields) = some fields := by
  induction fields with
  | nil => rfl
  | cons field fields ih =>
    have hfield : Value.ofField? depth (some field.1, field.2.toTree) = some field :=
      Value.ofField?_toTree (h field List.mem_cons_self).ofTree?_toTree
    have hfields := ih fun field hfield => h field (List.mem_cons_of_mem _ hfield)
    simp only [Value.fieldTrees, meanings?, hfield, hfields]

end ControlLoop.Json
