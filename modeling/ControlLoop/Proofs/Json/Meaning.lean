import Mathlib.Data.List.Forall2
import Mathlib.Data.List.Induction
import Mathlib.Data.List.Nodup
import ControlLoop.Json.Fields

/-!
# What a tree means

Not everything that is well formed has a meaning: a string may hold half of a surrogate pair, a
numeral may leave the doubles, and there is a limit to nesting. Where nothing of this is the case
(`Tree.Meaningful`) a tree has a value, and the value is what `Tree.Means` says: an array lists the
meanings of its items, and an object has each name once, with the meaning of the last field of that
name.

`put` is the only function that knows about names that occur twice; what a sequence of calls leaves
is said by `mem_gather_iff`.
-/

namespace ControlLoop.Json

namespace Tree

/-- All numbers in the tree exist, all strings and names are text, and it nests at most `depth`
deep. Only such a tree can be read as a value. -/
inductive Meaningful : (depth : Nat) → Tree → Prop
  | null (depth : Nat) : Meaningful depth null
  | bool (depth : Nat) (b : Bool) : Meaningful depth (bool b)
  | number (depth : Nat) (n : Number) : Meaningful depth (number (some n))
  | string (depth : Nat) (s : String) : Meaningful depth (string (some s))
  | array {depth : Nat} {items : List Tree} (meaningful : ∀ t ∈ items, Meaningful depth t) :
    Meaningful (depth + 1) (array items)
  | object {depth : Nat} {fields : List (Option String × Tree)} (named : ∀ field ∈ fields, field.1.isSome = true)
      (meaningful : ∀ field ∈ fields, Meaningful depth field.2) : Meaningful (depth + 1) (object fields)

/-- The tree means the value, up to the order of names in objects. Where a name occurs twice, its
last field counts. -/
inductive Means : Tree → Value → Prop
  | null : Means .null .null
  | bool (b : Bool) : Means (.bool b) (.bool b)
  | number (n : Number) : Means (.number (some n)) (.number n)
  | string (s : String) : Means (.string (some s)) (.string s)
  | array {items : List Tree} {values : List Value} (means : List.Forall₂ Means items values) :
    Means (.array items) (.array values)
  | object {fields : List (Option String × Tree)} {values : List (String × Value)}
      (distinct : (values.map (·.1)).Nodup)
      (names : ∀ name, name ∈ values.map (·.1) ↔ some name ∈ fields.map (·.1))
      (last : ∀ earlier name t later v, fields = earlier ++ (some name, t) :: later →
        some name ∉ later.map (·.1) → (name, v) ∈ values → Means t v) :
    Means (.object fields) (.object values)

end Tree

/-! ## Objects

`gather` is what reading makes of the fields of an object. It is described from both ends: each name
occurs once, and under it stands the last value that was given for it. -/

namespace Value

variable {name name' : String} {value value' : Value} {known pairs : List (String × Value)}

/-- Putting a value under a name adds the name at the end, unless it is there. -/
theorem map_fst_put (known : List (String × Value)) (name : String) (value : Value) :
    (put known name value).map (·.1) =
      if name ∈ known.map (·.1) then known.map (·.1) else known.map (·.1) ++ [name] := by
  fun_induction put known name value with
  | case1 => rfl
  | case2 field known h => simp [h]
  | case3 field known h ih =>
    rw [List.map_cons, ih]
    split <;> simp_all [eq_comm]

/-- Putting a value under a name keeps the names of an object different. -/
theorem nodup_put (h : (known.map (·.1)).Nodup) (name : String) (value : Value) :
    ((put known name value).map (·.1)).Nodup := by
  rw [map_fst_put]
  split
  · exact h
  · next hnew =>
    rw [← List.concat_eq_append]
    exact h.concat hnew

/-- What is put takes the place of what had its name; nothing else changes. -/
theorem mem_put_iff (h : (known.map (·.1)).Nodup) :
    (name', value') ∈ put known name value ↔
      name' = name ∧ value' = value ∨ name' ≠ name ∧ (name', value') ∈ known := by
  fun_induction put known name value with
  | case1 => simp
  | case2 field known hname =>
    obtain ⟨hnew, -⟩ := List.nodup_cons.mp h
    subst hname
    have hne : (name', value') ∈ known → name' ≠ field.1 := by
      rintro hmem rfl
      exact hnew (List.mem_map.mpr ⟨_, hmem, rfl⟩)
    simp only [List.mem_cons, Prod.mk.injEq]
    constructor
    · rintro (hput | hmem)
      · exact .inl hput
      · exact .inr ⟨hne hmem, .inr hmem⟩
    · rintro (hput | ⟨hne, rfl | hmem⟩)
      · exact .inl hput
      · exact absurd rfl hne
      · exact .inr hmem
  | case3 field known hname ih =>
    rw [List.mem_cons, ih (List.nodup_cons.mp h).2, List.mem_cons]
    constructor
    · rintro (rfl | hput | ⟨hne, hmem⟩)
      · exact .inr ⟨hname, .inl rfl⟩
      · exact .inl hput
      · exact .inr ⟨hne, .inr hmem⟩
    · rintro (hput | ⟨hne, rfl | hmem⟩)
      · exact .inr (.inl hput)
      · exact .inl rfl
      · exact .inr (.inr ⟨hne, hmem⟩)

/-- The object that fields make, one after the other: each is put in with `put`. -/
def gather (pairs : List (String × Value)) : List (String × Value) :=
  pairs.foldl (fun known pair => put known pair.1 pair.2) []

theorem gather_concat (pairs : List (String × Value)) (name : String) (value : Value) :
    gather (pairs ++ [(name, value)]) = put (gather pairs) name value := List.foldl_concat ..

/-- An object that is put together field by field has each name once. -/
theorem nodup_gather (pairs : List (String × Value)) : ((gather pairs).map (·.1)).Nodup := by
  induction pairs using List.reverseRecOn with
  | nil => exact List.nodup_nil
  | append_singleton pairs pair ih =>
    rw [gather_concat]
    exact nodup_put ih ..

/-- An object has the names of all its fields. -/
theorem mem_names_gather_iff (pairs : List (String × Value)) :
    name ∈ (gather pairs).map (·.1) ↔ name ∈ pairs.map (·.1) := by
  induction pairs using List.reverseRecOn with
  | nil => exact Iff.rfl
  | append_singleton pairs pair ih =>
    rw [gather_concat, map_fst_put, List.map_append, List.mem_append, List.map_singleton, List.mem_singleton, ← ih]
    split
    · next hold =>
      constructor
      · exact .inl
      · rintro (hmem | rfl)
        · exact hmem
        · exact hold
    · rw [List.mem_append, List.mem_singleton]

/-- The last field of a name counts: a value stands under a name exactly if some field puts it there
and no later one has the same name. -/
theorem mem_gather_iff (pairs : List (String × Value)) :
    (name, value) ∈ gather pairs ↔
      ∃ earlier later, pairs = earlier ++ (name, value) :: later ∧ name ∉ later.map (·.1) := by
  induction pairs using List.reverseRecOn with
  | nil => simp [gather]
  | append_singleton pairs pair ih =>
    obtain ⟨name', value'⟩ := pair
    rw [gather_concat, mem_put_iff (nodup_gather pairs), ih]
    constructor
    · rintro (⟨rfl, rfl⟩ | ⟨hne, earlier, later, rfl, hnew⟩)
      · exact ⟨pairs, [], rfl, by simp⟩
      · refine ⟨earlier, later ++ [(name', value')], by simp, ?_⟩
        rw [List.map_append, List.mem_append, not_or]
        exact ⟨hnew, by simpa using hne⟩
    · rintro ⟨earlier, later, heq, hnew⟩
      rcases List.eq_nil_or_concat later with rfl | ⟨later, pair, rfl⟩
      · obtain ⟨-, hpair⟩ := List.append_inj' heq rfl
        obtain ⟨rfl, rfl⟩ := Prod.mk.inj (List.singleton_inj.mp hpair)
        exact .inl ⟨rfl, rfl⟩
      · rw [List.concat_eq_append, ← List.cons_append, ← List.append_assoc] at heq
        obtain ⟨rfl, hpair⟩ := List.append_inj' heq rfl
        obtain rfl := List.singleton_inj.mp hpair
        rw [List.concat_eq_append, List.map_append, List.mem_append, not_or] at hnew
        exact .inr ⟨by simpa using hnew.2, earlier, later, rfl, hnew.1⟩

/-! ## Reading -/

variable {depth : Nat} {items : List Tree} {fields : List (Option String × Tree)}

/-- If each item is read as what it means, the items are. -/
theorem ofItems?_of_forall (h : ∀ t ∈ items, ∃ v, ofTree? depth t = some v ∧ t.Means v) :
    ∃ values, ofItems? depth items = some values ∧ List.Forall₂ Tree.Means items values := by
  induction items with
  | nil => exact ⟨[], rfl, .nil⟩
  | cons item items ih =>
    obtain ⟨v, hv, hmeans⟩ := h item List.mem_cons_self
    obtain ⟨values, hvalues, hall⟩ := ih fun t ht => h t (List.mem_cons_of_mem _ ht)
    exact ⟨v :: values, by simp only [ofItems?, hv, hvalues], .cons hmeans hall⟩

end Value

/-- The field means the named value. -/
def Tree.FieldMeans (field : Option String × Tree) (pair : String × Value) : Prop :=
  field.1 = some pair.1 ∧ field.2.Means pair.2

namespace Value

/-- Fields are read by putting their meanings in, one after the other. -/
theorem ofFields?_eq {depth : Nat} {fields : List (Option String × Tree)} {pairs : List (String × Value)}
    (h : meanings? depth fields = some pairs) (known : List (String × Value)) :
    ofFields? depth known fields = some (pairs.foldl (fun known pair => put known pair.1 pair.2) known) := by
  induction fields generalizing pairs known with
  | nil =>
    cases h
    rfl
  | cons field fields ih =>
    rw [meanings?] at h
    split at h
    · next pair pairs' hfield hfields =>
      cases h
      rw [ofFields?, hfield, List.foldl_cons]
      exact ih hfields _
    · cases h

end Value

open Value in
/-- If each field has a name that is text and is read as what it means, the fields are. -/
theorem meanings?_of_forall {depth : Nat} {fields : List (Option String × Tree)}
    (hnamed : ∀ field ∈ fields, field.1.isSome = true)
    (h : ∀ field ∈ fields, ∃ v, ofTree? depth field.2 = some v ∧ field.2.Means v) :
    ∃ pairs, meanings? depth fields = some pairs ∧ List.Forall₂ Tree.FieldMeans fields pairs := by
  induction fields with
  | nil => exact ⟨[], rfl, .nil⟩
  | cons field fields ih =>
    obtain ⟨name, t⟩ := field
    obtain ⟨name, rfl⟩ := Option.isSome_iff_exists.mp (hnamed _ List.mem_cons_self)
    obtain ⟨v, hv, hmeans⟩ := h _ List.mem_cons_self
    obtain ⟨pairs, hpairs, hall⟩ := ih (fun field hf => hnamed field (List.mem_cons_of_mem _ hf))
      fun field hf => h field (List.mem_cons_of_mem _ hf)
    refine ⟨(name, v) :: pairs, ?_, .cons ⟨rfl, hmeans⟩ hall⟩
    simp only [meanings?, ofField?, hv, Option.map_some, hpairs]

namespace Tree

variable {depth : Nat} {t : Tree} {fields : List (Option String × Tree)} {pairs : List (String × Value)}

theorem map_fst_of_fieldMeans (h : List.Forall₂ FieldMeans fields pairs) :
    fields.map (·.1) = pairs.map fun pair => some pair.1 := by
  induction h with
  | nil => rfl
  | cons hfield _ ih => rw [List.map_cons, List.map_cons, ih, hfield.1]

/-- Each field has its meaning at the same place. -/
theorem exists_of_forall₂_append {earlier later : List (Option String × Tree)} {field : Option String × Tree}
    (h : List.Forall₂ FieldMeans (earlier ++ field :: later) pairs) :
    ∃ before pair after, pairs = before ++ pair :: after ∧ FieldMeans field pair ∧
      List.Forall₂ FieldMeans later after := by
  induction earlier generalizing pairs with
  | nil =>
    obtain ⟨pair, after, hfield, hlater, rfl⟩ := List.forall₂_cons_left_iff.mp h
    exact ⟨[], pair, after, rfl, hfield, hlater⟩
  | cons _ earlier ih =>
    obtain ⟨first, rest, -, hrest, rfl⟩ := List.forall₂_cons_left_iff.mp h
    obtain ⟨before, pair, after, rfl, hfield, hlater⟩ := ih hrest
    exact ⟨first :: before, pair, after, rfl, hfield, hlater⟩

/-- Fields mean the object that their meanings make. -/
theorem means_gather (h : List.Forall₂ FieldMeans fields pairs) :
    Means (.object fields) (.object (Value.gather pairs)) := by
  have hnames : ∀ {name} {fields : List (Option String × Tree)} {pairs : List (String × Value)},
      List.Forall₂ FieldMeans fields pairs → (name ∈ pairs.map (·.1) ↔ some name ∈ fields.map (·.1)) := by
    intro name fields pairs h
    simp [map_fst_of_fieldMeans h]
  refine .object (Value.nodup_gather pairs) (fun name => (Value.mem_names_gather_iff pairs).trans (hnames h)) ?_
  rintro earlier name t later v rfl hlast hmem
  obtain ⟨before, ⟨name', v'⟩, after, rfl, ⟨hname, hmeans⟩, hafter⟩ := exists_of_forall₂_append h
  obtain rfl : name = name' := Option.some.inj hname
  -- the object has the value of the last field of that name, and no other
  have hmem' : (name, v') ∈ Value.gather (before ++ (name, v') :: after) :=
    (Value.mem_gather_iff _).mpr ⟨before, after, rfl, fun hin => hlast ((hnames hafter).mp hin)⟩
  obtain rfl : v = v' := by
    have hpair := List.inj_on_of_nodup_map (Value.nodup_gather _) hmem hmem' rfl
    exact (Prod.mk.inj hpair).2
  exact hmeans

/-- What has a meaning is read as that. The induction is on the tree; for an object the fields are
read first, and then put together. -/
theorem Meaningful.exists_means (h : t.Meaningful depth) : ∃ v, Value.ofTree? depth t = some v ∧ t.Means v := by
  induction h with
  | null depth => exact ⟨.null, rfl, .null⟩
  | bool depth b => exact ⟨.bool b, rfl, .bool b⟩
  | number depth n => exact ⟨.number n, rfl, .number n⟩
  | string depth s => exact ⟨.string s, rfl, .string s⟩
  | array _ ih =>
    obtain ⟨values, hvalues, hall⟩ := Value.ofItems?_of_forall ih
    exact ⟨.array values, by rw [Value.ofTree?, hvalues, Option.map_some], .array hall⟩
  | object hnamed _ ih =>
    obtain ⟨pairs, hpairs, hall⟩ := meanings?_of_forall hnamed ih
    exact ⟨.object (Value.gather pairs), by rw [Value.ofTree?, Value.ofFields?_eq hpairs]; rfl, means_gather hall⟩

/-- The fields of an object that has a meaning are read as what they mean. -/
theorem Meaningful.exists_fieldMeans (h : Meaningful (depth + 1) (Tree.object fields)) :
    ∃ pairs, meanings? depth fields = some pairs ∧ List.Forall₂ FieldMeans fields pairs := by
  cases h with
  | object hnamed hmeaningful =>
    exact meanings?_of_forall hnamed fun field hf => (hmeaningful field hf).exists_means

end Tree

end ControlLoop.Json
