import Mathlib.Data.List.Perm.Basic
import ControlLoop.Proofs.Json.Meaning

/-!
# What stands under a name

An object is read by the values under a few names (`valuesOf`). Which ones these are can be said of
the tree as well (`valuesAt`): fields and meanings correspond name by name (`forall₂_valuesOf`). The
order of the fields makes no difference, and neither do fields under other names (`perm_valuesOf`).

The three ways to ask for a value, `only?`, `onlyString?` and `atMostOne?`, look at `valuesOf` and
at nothing else, so whatever leaves this list as it is, up to its order, leaves the answers as they
are.
-/

namespace ControlLoop.Json

/-! ## The values of a name

The three ways to ask for a value tell nothing of a list with two entries or more but that it is
one. Shorter lists have no order, so for each of them a permutation of `valuesOf` is as good as
equality (`only?_congr`, `onlyString?_congr`, `atMostOne?_congr`). -/

section

variable {α : Type} {name : String} {v : α} {fields fields' : List (String × α)}

theorem filter_eq_nil_of_not_mem {ν : Type} [DecidableEq ν] {name : ν} {fields : List (ν × α)}
    (h : name ∉ fields.map (·.1)) : fields.filter (·.1 = name) = [] := by
  rw [List.filter_eq_nil_iff]
  intro field hfield heq
  exact h (List.mem_map.mpr ⟨field, hfield, of_decide_eq_true heq⟩)

theorem valuesOf_of_not_mem (h : name ∉ fields.map (·.1)) : valuesOf name fields = [] := by
  rw [valuesOf, filter_eq_nil_of_not_mem h, List.map_nil]

/-- Where names differ, a name has one value. -/
theorem valuesOf_of_mem (hdistinct : (fields.map (·.1)).Nodup) (h : (name, v) ∈ fields) :
    valuesOf name fields = [v] := by
  induction fields with
  | nil => cases h
  | cons field fields ih =>
    rw [List.map_cons, List.nodup_cons] at hdistinct
    rcases List.mem_cons.mp h with rfl | h
    · have hrest := valuesOf_of_not_mem hdistinct.1
      rw [valuesOf] at hrest ⊢
      rw [List.filter_cons_of_pos (by simp), List.map_cons, hrest]
    · have hne : field.1 ≠ name := by
        rintro rfl
        exact hdistinct.1 (List.mem_map.mpr ⟨_, h, rfl⟩)
      have hrest := ih hdistinct.2 h
      rw [valuesOf] at hrest ⊢
      rw [List.filter_cons_of_neg (by simpa using hne), hrest]

/-- The values of a name in two parts are those in the first and those in the second. -/
theorem valuesOf_append (name : String) (fields fields' : List (String × α)) :
    valuesOf name (fields ++ fields') = valuesOf name fields ++ valuesOf name fields' := by
  rw [valuesOf, List.filter_append, List.map_append]
  rfl

/-- A value is the only one of its name exactly if it is the list of all. -/
theorem only?_eq_some_iff : only? name fields = some v ↔ valuesOf name fields = [v] := by
  unfold only?
  split
  · next w h => rw [h, Option.some_inj, List.singleton_inj]
  · next h =>
    constructor
    · exact nofun
    · intro heq
      exact (h v heq).elim

theorem only?_of_mem (hdistinct : (fields.map (·.1)).Nodup) (h : (name, v) ∈ fields) : only? name fields = some v :=
  only?_eq_some_iff.mpr (valuesOf_of_mem hdistinct h)

theorem only?_congr (h : (valuesOf name fields).Perm (valuesOf name fields')) :
    only? name fields = only? name fields' := by
  apply Option.ext
  intro v
  rw [only?_eq_some_iff, only?_eq_some_iff, ← List.perm_singleton, ← List.perm_singleton, h.congr_left]

end

section

variable {name s : String} {v : Value} {fields fields' : List (String × Value)}

theorem onlyString?_eq_some_iff : onlyString? name fields = some s ↔ valuesOf name fields = [.string s] := by
  rw [onlyString?, Option.bind_eq_some_iff, ← only?_eq_some_iff]
  constructor
  · rintro ⟨v, hv, hs⟩
    cases v <;> cases hs
    exact hv
  · intro h
    exact ⟨_, h, rfl⟩

theorem onlyString?_of_mem (hdistinct : (fields.map (·.1)).Nodup) (h : (name, .string s) ∈ fields) :
    onlyString? name fields = some s :=
  onlyString?_eq_some_iff.mpr (valuesOf_of_mem hdistinct h)

theorem onlyString?_congr (h : (valuesOf name fields).Perm (valuesOf name fields')) :
    onlyString? name fields = onlyString? name fields' := by
  rw [onlyString?, onlyString?, only?_congr h]

/-- Where no value stands null is read, and where one stands that one; two are refused. -/
theorem atMostOne?_eq_some_iff :
    atMostOne? name fields = some v ↔ valuesOf name fields = [] ∧ v = .null ∨ valuesOf name fields = [v] := by
  unfold atMostOne?
  split
  · next h => simp [h, eq_comm]
  · next w h => simp [h]
  · next hnil hone =>
    constructor
    · exact nofun
    · rintro (⟨heq, -⟩ | heq)
      · exact (hnil heq).elim
      · exact (hone v heq).elim

theorem atMostOne?_of_mem (hdistinct : (fields.map (·.1)).Nodup) (h : (name, v) ∈ fields) :
    atMostOne? name fields = some v :=
  atMostOne?_eq_some_iff.mpr (.inr (valuesOf_of_mem hdistinct h))

theorem atMostOne?_of_not_mem (h : name ∉ fields.map (·.1)) : atMostOne? name fields = some .null :=
  atMostOne?_eq_some_iff.mpr (.inl ⟨valuesOf_of_not_mem h, rfl⟩)

theorem atMostOne?_congr (h : (valuesOf name fields).Perm (valuesOf name fields')) :
    atMostOne? name fields = atMostOne? name fields' := by
  apply Option.ext
  intro v
  rw [atMostOne?_eq_some_iff, atMostOne?_eq_some_iff, ← List.perm_nil, ← List.perm_nil, ← List.perm_singleton,
    ← List.perm_singleton, h.congr_left, h.congr_left]

end

/-! ## Fields of trees -/

/-- The values that are spelled under the name. -/
def valuesAt (name : String) (fields : List (Option String × Tree)) : List Tree :=
  (fields.filter (·.1 = some name)).map (·.2)

namespace Tree

/-- Only a string means a string. -/
theorem means_string_iff {t : Tree} {s : String} : t.Means (.string s) ↔ t = .string (some s) := by
  constructor
  · intro h
    cases h
    rfl
  · rintro rfl
    exact .string s

theorem string_means_iff {v : Value} {s : String} : (Tree.string (some s)).Means v ↔ v = .string s := by
  constructor
  · intro h
    cases h
    rfl
  · rintro rfl
    exact .string s

end Tree

section

variable {depth : Nat} {name s : String} {fields fields' extra : List (Option String × Tree)}
  {pairs pairs' : List (String × Value)}

/-- What is spelled under a name in two parts is what is spelled in the first and what is spelled in
the second. -/
theorem valuesAt_append (name : String) (fields fields' : List (Option String × Tree)) :
    valuesAt name (fields ++ fields') = valuesAt name fields ++ valuesAt name fields' := by
  rw [valuesAt, List.filter_append, List.map_append]
  rfl

theorem valuesAt_of_not_mem (h : some name ∉ fields.map (·.1)) : valuesAt name fields = [] := by
  rw [valuesAt, filter_eq_nil_of_not_mem h, List.map_nil]

/-- Neither the order of the fields matters nor a field under another name. -/
theorem perm_valuesAt (hperm : fields'.Perm (fields ++ extra)) (hnew : some name ∉ extra.map (·.1)) :
    (valuesAt name fields').Perm (valuesAt name fields) := by
  have hvalues : (valuesAt name fields').Perm (valuesAt name (fields ++ extra)) := (hperm.filter _).map _
  rwa [valuesAt_append, valuesAt_of_not_mem hnew, List.append_nil] at hvalues

/-- What is spelled under a name means what is read under it. -/
theorem forall₂_valuesOf (name : String) (h : List.Forall₂ Tree.FieldMeans fields pairs) :
    List.Forall₂ Tree.Means (valuesAt name fields) (valuesOf name pairs) := by
  induction h with
  | nil => exact .nil
  | @cons field pair fields pairs hfield _ ih =>
    obtain ⟨hname, hmeans⟩ := hfield
    unfold valuesAt valuesOf at ih ⊢
    by_cases heq : pair.1 = name
    · rw [List.filter_cons_of_pos (by simp [hname, heq]), List.filter_cons_of_pos (by simp [heq])]
      exact .cons hmeans ih
    · rw [List.filter_cons_of_neg (by simp [hname, heq]), List.filter_cons_of_neg (by simp [heq])]
      exact ih

/-- The string that is read under a name is the only thing that is spelled under it. -/
theorem onlyString?_iff_valuesAt (h : List.Forall₂ Tree.FieldMeans fields pairs) :
    onlyString? name pairs = some s ↔ valuesAt name fields = [.string (some s)] := by
  have hmeans := forall₂_valuesOf name h
  rw [onlyString?_eq_some_iff]
  constructor
  · intro heq
    rw [heq] at hmeans
    obtain ⟨t, _, ht, hnil, heq'⟩ := List.forall₂_cons_right_iff.mp hmeans
    rw [heq', List.forall₂_nil_right_iff.mp hnil, Tree.means_string_iff.mp ht]
  · intro heq
    rw [heq] at hmeans
    obtain ⟨v, _, hv, hnil, heq'⟩ := List.forall₂_cons_left_iff.mp hmeans
    rw [heq', List.forall₂_nil_left_iff.mp hnil, Tree.string_means_iff.mp hv]

/-- The meanings stand in the order of the fields. -/
theorem meanings?_eq_filterMap (h : meanings? depth fields = some pairs) :
    pairs = fields.filterMap (Value.ofField? depth) := by
  induction fields generalizing pairs with
  | nil =>
    cases h
    rfl
  | cons field fields ih =>
    rw [meanings?] at h
    split at h
    · next pair pairs' hfield hfields =>
      cases h
      rw [List.filterMap_cons_some hfield, ← ih hfields]
    · cases h

/-- No meaning stands under a name that no field has. -/
theorem not_mem_names_filterMap (hnew : some name ∉ extra.map (·.1)) :
    name ∉ (extra.filterMap (Value.ofField? depth)).map (·.1) := by
  intro hname
  obtain ⟨pair, hpair, rfl⟩ := List.mem_map.mp hname
  obtain ⟨⟨name', t⟩, hfield, hpair⟩ := List.mem_filterMap.mp hpair
  cases name' with
  | none => cases hpair
  | some name' =>
    obtain ⟨v, -, rfl⟩ := Option.map_eq_some_iff.mp hpair
    exact hnew (List.mem_map.mpr ⟨_, hfield, rfl⟩)

/-- The same is read under a name in any order, and with more fields under other names. -/
theorem perm_valuesOf (h : meanings? depth fields = some pairs) (h' : meanings? depth fields' = some pairs')
    (hperm : fields'.Perm (fields ++ extra)) (hnew : some name ∉ extra.map (·.1)) :
    (valuesOf name pairs').Perm (valuesOf name pairs) := by
  rw [meanings?_eq_filterMap h, meanings?_eq_filterMap h']
  have hvalues : (valuesOf name (fields'.filterMap (Value.ofField? depth))).Perm
      (valuesOf name ((fields ++ extra).filterMap (Value.ofField? depth))) := ((hperm.filterMap _).filter _).map _
  rwa [List.filterMap_append, valuesOf_append, valuesOf_of_not_mem (not_mem_names_filterMap hnew),
    List.append_nil] at hvalues

end

end ControlLoop.Json
