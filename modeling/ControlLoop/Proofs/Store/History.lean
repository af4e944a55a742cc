import ControlLoop.Proofs.Store.Refusal
import ControlLoop.Proofs.Store.Scan

/-!
# A store keeps no history

Its objects and its functions determine a store: an index files each key under the values of its
object and holds nothing else (`Filing.Files`), and there is only one index that does. So it does
not matter by which calls a store came about. What calls make of the objects and of the functions is
all that has to be compared: an index that is registered late, and filled with what is stored, is
the index that would have been kept up to date all along; a store that is rebuilt is the store that
would have been filled from the start; and calls about different objects may change places.

Late indices need a relation between two stores: `Ahead new s t` says that `t` has the indices of
`new` besides those of `s`, and the same objects. Every call that does not register one of them
keeps it (`Ahead.after`), since functions that never reject an object do not change what is refused.
-/

namespace ControlLoop

variable {α : Type}

namespace Filing.Files

variable {f g : Filing} {content : Key → List String}

/-- There is one index only that files each key under its values and holds nothing else. -/
theorem unique (hf : f.Files content) (hg : g.Files content) : f = g :=
  hf.wellFormed.eq_of_recorded hg.wellFormed fun key => (hf.recorded key).trans (hg.recorded key).symm

end Filing.Files

namespace Store

variable {s t : Store α} {functions new : Table (IndexFunction α)} {objects : List (Key × α)} {call other : Call α}
  {key k : Key} {a : α} {name : String}

/-! ## Contents determine a store -/

/-- Two sound stores with the same objects and the same functions have the same indices: for each
name `Filing.Files.unique` leaves no choice. -/
theorem Sound.indices_eq (hs : s.Sound) (ht : t.Sound) (hitems : s.items = t.items)
    (hfunctions : s.functions = t.functions) : s.indices = t.indices := by
  refine Std.ExtTreeMap.ext_getElem? fun name => ?_
  have hmem : name ∈ s.indices ↔ name ∈ t.indices := by rw [hs.mem_indices, ht.mem_indices, hfunctions]
  by_cases hname : name ∈ s.indices
  · obtain ⟨f, hf⟩ := exists_of_mem ((hs.mem_indices name).mp hname)
    obtain ⟨filing, hfiling⟩ := exists_of_mem hname
    obtain ⟨filing', hfiling'⟩ := exists_of_mem (hmem.mp hname)
    have hfiles := (hs.kept name f filing hf hfiling).files
    have hfiles' := (ht.kept name f filing' (hfunctions ▸ hf) hfiling').files
    rw [← hitems] at hfiles'
    rw [hfiling, hfiling', hfiles.unique hfiles']
  · rw [Std.ExtTreeMap.getElem?_eq_none hname, Std.ExtTreeMap.getElem?_eq_none (mt hmem.mpr hname)]

/-- Two sound stores with the same objects and the same functions are one and the same store. -/
theorem Sound.eq_of_contents_eq (hs : s.Sound) (ht : t.Sound) (hitems : s.items = t.items)
    (hfunctions : s.functions = t.functions) : s = t := by
  have hindices := hs.indices_eq ht hitems hfunctions
  cases s
  cases t
  cases hitems
  cases hfunctions
  cases hindices
  rfl

/-! ## What calls make of the contents

The lemmas on refusals, put in terms of `after`: a call that is refused leaves the contents as they
are, and for any other it is said what becomes of the objects and of the functions. The indices need
not be looked at. -/

/-- Putting an object in leaves the contents as they are if a function rejects it, and changes the
object of the key otherwise. -/
theorem after_add_cases (s : Store α) (key : Key) (a : α) :
    (Rejects s.functions a ∧ s.after (.add key a) = s) ∨
    (¬Rejects s.functions a ∧ (s.after (.add key a)).items = s.items.insert key a ∧
      (s.after (.add key a)).functions = s.functions) := by
  rcases s.add_cases key a with ⟨e, he, hrejects⟩ | ⟨hnot, t, ht, hitems, hfunctions⟩
  · exact .inl ⟨hrejects.rejects, getD_of_error he⟩
  · refine .inr ⟨hnot, ?_⟩
    rw [after, getD_of_ok ht]
    exact ⟨hitems, hfunctions⟩

/-- Replacing leaves the contents as they are if one of the objects is rejected. -/
theorem after_replace_cases (s : Store α) (objects : List (Key × α)) :
    ((∃ o ∈ objects, Rejects s.functions o.2) ∧ s.after (.replace objects) = s) ∨
    ((∀ o ∈ objects, ¬Rejects s.functions o.2) ∧
      (s.after (.replace objects)).items = (∅ : Table α).insertMany objects ∧
      (s.after (.replace objects)).functions = s.functions) := by
  rcases s.replace_cases objects with ⟨e, he, hfirst⟩ | ⟨hnot, t, ht, hitems, hfunctions⟩
  · exact .inl ⟨hfirst.exists_mem, getD_of_error he⟩
  · refine .inr ⟨hnot, ?_⟩
    rw [after, getD_of_ok ht]
    exact ⟨hitems, hfunctions⟩

/-- Registering indices leaves the objects alone, whether it is refused or not. -/
theorem after_addFunctions_cases (s : Store α) (new : Table (IndexFunction α)) :
    (((∃ name ∈ new, name ∈ s.functions) ∨ ∃ (key : Key) (a : α), s.items[key]? = some a ∧ Rejects new a) ∧
      s.after (.addFunctions new) = s) ∨
    ((∀ name ∈ new, name ∉ s.functions) ∧ (∀ (key : Key) (a : α), s.items[key]? = some a → ¬Rejects new a) ∧
      (s.after (.addFunctions new)).items = s.items ∧
      (s.after (.addFunctions new)).functions = s.functions.insertMany new.toList) := by
  rcases s.addFunctions_cases new with
    ⟨name, he, hnew, hold⟩ | ⟨-, e, key, a, he, ha, hrejects⟩ | ⟨hfree, hnot, t, ht, hitems, hfunctions⟩
  · exact .inl ⟨.inl ⟨name, hnew, hold⟩, getD_of_error he⟩
  · exact .inl ⟨.inr ⟨key, a, ha, hrejects.rejects⟩, getD_of_error he⟩
  · refine .inr ⟨hfree, hnot, ?_⟩
    rw [after, getD_of_ok ht]
    exact ⟨hitems, hfunctions⟩

theorem after_delete (s : Store α) (key : Key) :
    (s.after (.delete key)).items = s.items.erase key ∧ (s.after (.delete key)).functions = s.functions := by
  rw [after, delete]
  cases ha : s.items[key]? with
  | some a => exact ⟨rfl, rfl⟩
  | none =>
    refine ⟨Std.ExtTreeMap.ext_getElem? fun k => ?_, rfl⟩
    rw [Std.ExtTreeMap.getElem?_erase]
    by_cases hk : key = k
    · subst hk
      simp [ha]
    · simp [hk]

/-- No call takes away a function. -/
theorem mem_functions_after (call : Call α) (h : name ∈ s.functions) : name ∈ (s.after call).functions := by
  cases call with
  | add key a | update key a =>
    rcases s.after_add_cases key a with ⟨-, heq⟩ | ⟨-, -, heq⟩
    · exact heq.symm ▸ h
    · exact heq.symm ▸ h
  | delete key => exact (s.after_delete key).2.symm ▸ h
  | replace objects =>
    rcases s.after_replace_cases objects with ⟨-, heq⟩ | ⟨-, -, heq⟩
    · exact heq.symm ▸ h
    · exact heq.symm ▸ h
  | addFunctions new =>
    rcases s.after_addFunctions_cases new with ⟨-, heq⟩ | ⟨-, -, -, heq⟩
    · exact heq.symm ▸ h
    · rw [heq, Std.ExtTreeMap.mem_insertMany_list]
      exact .inl h

theorem mem_functions_afterAll (calls : List (Call α)) (h : name ∈ s.functions) :
    name ∈ (s.afterAll calls).functions := by
  induction calls generalizing s with
  | nil => exact h
  | cons call calls ih => exact ih (mem_functions_after call h)

/-! ## Indices that come late

Two stores go through the same calls, and one of them has more indices. `Ahead` compares their
contents, and each kind of call keeps it, because the functions that are missing reject nothing and
so never make a difference between being refused and not. When they are registered at last the
contents agree, and so do the stores. -/

/-- Functions that never reject an object do not change what is rejected. -/
theorem rejects_insertMany (hnever : ¬Rejects new a) (hfresh : ∀ name ∈ new, name ∉ functions) :
    Rejects (functions.insertMany new.toList) a ↔ Rejects functions a := by
  constructor
  · rintro ⟨name, f, reason, hf, ha⟩
    rw [getElem?_insertMany_toList] at hf
    rcases Option.or_eq_some_iff.mp hf with hnew | ⟨-, hold⟩
    · exact absurd ⟨name, f, reason, hnew, ha⟩ hnever
    · exact ⟨name, f, reason, hold, ha⟩
  · rintro ⟨name, f, reason, hf, ha⟩
    refine ⟨name, f, reason, ?_, ha⟩
    have hnone : new[name]? = none :=
      Std.ExtTreeMap.getElem?_eq_none fun hname => hfresh name hname (mem_of_getElem?_eq_some hf)
    rw [getElem?_insertMany_toList, hnone, Option.none_or, hf]

/-- A store has the objects of another, and besides its functions some that never reject an object.
It is what the other store will be when these functions are registered there. -/
structure Ahead (new : Table (IndexFunction α)) (s t : Store α) : Prop where
  never : ∀ a, ¬Rejects new a
  fresh : ∀ name ∈ new, name ∉ s.functions
  items : t.items = s.items
  functions : t.functions = s.functions.insertMany new.toList

namespace Ahead

theorem rejects_iff (h : Ahead new s t) (a : α) : Rejects t.functions a ↔ Rejects s.functions a := by
  rw [h.functions, rejects_insertMany (h.never a) h.fresh]

/-- What has been said of the contents of two stores is said again of what a call makes of them. -/
theorem of_contents (h : Ahead new s t) {s' t' : Store α} (hitems : t'.items = s'.items)
    (hs : s'.functions = s.functions) (ht : t'.functions = t.functions) : Ahead new s' t' where
  never := h.never
  fresh := by
    rw [hs]
    exact h.fresh
  items := hitems
  functions := by rw [ht, hs, h.functions]

/-- Putting an object in is refused in both stores or in neither. -/
theorem add (h : Ahead new s t) (key : Key) (a : α) : Ahead new (s.after (.add key a)) (t.after (.add key a)) := by
  rcases s.after_add_cases key a with ⟨hrejects, hs⟩ | ⟨hnot, hitems, hs⟩
  · rcases t.after_add_cases key a with ⟨-, ht⟩ | ⟨hnot, -⟩
    · rw [hs, ht]
      exact h
    · exact absurd ((h.rejects_iff a).mpr hrejects) hnot
  · rcases t.after_add_cases key a with ⟨hrejects, -⟩ | ⟨-, hitems', ht⟩
    · exact absurd ((h.rejects_iff a).mp hrejects) hnot
    · exact h.of_contents (by rw [hitems, hitems', h.items]) hs ht

theorem delete (h : Ahead new s t) (key : Key) : Ahead new (s.after (.delete key)) (t.after (.delete key)) := by
  obtain ⟨hitems, hs⟩ := s.after_delete key
  obtain ⟨hitems', ht⟩ := t.after_delete key
  exact h.of_contents (by rw [hitems, hitems', h.items]) hs ht

/-- Replacing the objects is refused in both stores or in neither. -/
theorem replace (h : Ahead new s t) (objects : List (Key × α)) :
    Ahead new (s.after (.replace objects)) (t.after (.replace objects)) := by
  rcases s.after_replace_cases objects with ⟨⟨o, ho, hrejects⟩, hs⟩ | ⟨hnot, hitems, hs⟩
  · rcases t.after_replace_cases objects with ⟨-, ht⟩ | ⟨hnot, -⟩
    · rw [hs, ht]
      exact h
    · exact absurd ((h.rejects_iff o.2).mpr hrejects) (hnot o ho)
  · rcases t.after_replace_cases objects with ⟨⟨o, ho, hrejects⟩, -⟩ | ⟨-, hitems', ht⟩
    · exact absurd ((h.rejects_iff o.2).mp hrejects) (hnot o ho)
    · exact h.of_contents (by rw [hitems, hitems']) hs ht

/-- Registering other indices is refused in both stores or in neither. -/
theorem addFunctions (h : Ahead new s t) (more : Table (IndexFunction α))
    (hfresh : ∀ name ∈ new, name ∉ (s.after (.addFunctions more)).functions) :
    Ahead new (s.after (.addFunctions more)) (t.after (.addFunctions more)) := by
  rcases s.after_addFunctions_cases more with ⟨hrefused, hs⟩ | ⟨hfree, hnot, hitems, hfunctions⟩
  · -- refused for the same reason where there are more functions
    rcases t.after_addFunctions_cases more with ⟨-, ht⟩ | ⟨hfree, hnot, -⟩
    · rw [hs, ht]
      exact h
    · rcases hrefused with ⟨name, hmore, hname⟩ | ⟨key, a, ha, hrejects⟩
      · refine absurd ?_ (hfree name hmore)
        rw [h.functions, Std.ExtTreeMap.mem_insertMany_list]
        exact .inl hname
      · exact absurd hrejects (hnot key a (h.items ▸ ha))
  · rw [hfunctions] at hfresh
    have hapart : ∀ name ∈ new, name ∉ more := by
      intro name hnew hmore
      refine hfresh name hnew ?_
      rw [Std.ExtTreeMap.mem_insertMany_list, List.contains_iff_mem, mem_names]
      exact .inr hmore
    -- nor is it refused there: the functions that are there besides have other names
    rcases t.after_addFunctions_cases more with ⟨hrefused, -⟩ | ⟨-, -, hitems', hfunctions'⟩
    · rcases hrefused with ⟨name, hmore, hname⟩ | ⟨key, a, ha, hrejects⟩
      · rw [h.functions, Std.ExtTreeMap.mem_insertMany_list, List.contains_iff_mem, mem_names] at hname
        rcases hname with hname | hnew
        · exact absurd hname (hfree name hmore)
        · exact absurd hmore (hapart name hnew)
      · exact absurd hrejects (hnot key a (h.items ▸ ha))
    · refine ⟨h.never, hfunctions ▸ hfresh, by rw [hitems', hitems, h.items], ?_⟩
      rw [hfunctions', hfunctions, h.functions]
      refine Std.ExtTreeMap.ext_getElem? fun name => ?_
      simp only [getElem?_insertMany_toList]
      by_cases hnew : name ∈ new
      · rw [Std.ExtTreeMap.getElem?_eq_none (hapart name hnew), Option.none_or, Option.none_or]
      · rw [Std.ExtTreeMap.getElem?_eq_none hnew, Option.none_or, Option.none_or]

/-- Calls that do not register the functions that are missing keep the distance. -/
theorem after (h : Ahead new s t) (call : Call α) (hfresh : ∀ name ∈ new, name ∉ (s.after call).functions) :
    Ahead new (s.after call) (t.after call) := by
  cases call with
  | add key a => exact h.add key a
  | update key a => exact h.add key a
  | delete key => exact h.delete key
  | replace objects => exact h.replace objects
  | addFunctions more => exact h.addFunctions more hfresh

/-- The distance between the stores is kept along all calls that do not register the functions that
are missing. -/
theorem afterAll (h : Ahead new s t) (calls : List (Call α))
    (hfresh : ∀ name ∈ new, name ∉ (s.afterAll calls).functions) :
    Ahead new (s.afterAll calls) (t.afterAll calls) := by
  induction calls generalizing s t with
  | nil => exact h
  | cons call calls ih =>
    refine ih (h.after call fun name hnew hname => ?_) hfresh
    exact hfresh name hnew (mem_functions_afterAll calls hname)

end Ahead

/-- An index that comes after some calls is the index that would have been there before them. -/
theorem after_addFunctions_of_calls (functions new : Table (IndexFunction α)) (calls : List (Call α))
    (hnever : ∀ a, ¬Rejects new a)
    (hfresh : ∀ name ∈ new, name ∉ ((withFunctions functions).afterAll calls).functions) :
    ((withFunctions functions).afterAll calls).after (.addFunctions new) =
      (withFunctions (functions.insertMany new.toList)).afterAll calls := by
  have hfresh' : ∀ name ∈ new, name ∉ functions := fun name hnew hname =>
    hfresh name hnew (mem_functions_afterAll calls hname)
  have hstart : Ahead new (withFunctions functions) (withFunctions (functions.insertMany new.toList)) :=
    ⟨hnever, hfresh', rfl, rfl⟩
  have hahead := hstart.afterAll calls hfresh
  have hlate := (sound_of_calls functions calls).after (.addFunctions new)
  have hearly := sound_of_calls (functions.insertMany new.toList) calls
  rcases after_addFunctions_cases ((withFunctions functions).afterAll calls) new with
    ⟨hrefused, -⟩ | ⟨-, -, hitems, hfunctions⟩
  · rcases hrefused with ⟨name, hnew, hname⟩ | ⟨key, a, -, hrejects⟩
    · exact absurd hname (hfresh name hnew)
    · exact absurd hrejects (hnever a)
  · exact hlate.eq_of_contents_eq hearly (hitems.trans hahead.items.symm) (hfunctions.trans hahead.functions.symm)

/-! ## Objects one by one -/

/-- Putting in many objects is putting them in one by one. -/
theorem afterAll_add (h : s.addAll objects = .ok t) : s.afterAll (objects.map fun o => .add o.1 o.2) = t := by
  induction objects generalizing s with
  | nil =>
    cases h
    rfl
  | cons object objects ih =>
    obtain ⟨next, hnext, h⟩ := bind_eq_ok.mp h
    have hadd : s.after (.add object.1 object.2) = next := getD_of_ok hnext
    rw [← ih h, ← hadd]
    rfl

/-! ## Calls about different objects

A call about one object looks at that object and at the functions, and changes no other object. For
two such calls the objects agree in either order, and the functions do not change at all. -/

/-- The key of the object that a call is about, if it is about one. -/
def Call.key? : Call α → Option Key
  | .add key _ | .update key _ | .delete key => some key
  | .replace _ | .addFunctions _ => none

/-- A call about an object registers no index. -/
theorem functions_after_of_key (hkey : call.key? = some key) : (s.after call).functions = s.functions := by
  cases call with
  | add k a | update k a =>
    rcases s.after_add_cases k a with ⟨-, hs⟩ | ⟨-, -, hs⟩
    · exact congrArg functions hs
    · exact hs
  | delete k => exact (s.after_delete k).2
  | replace _ | addFunctions _ => cases hkey

/-- A call about one object leaves the others alone. -/
theorem getElem?_after_of_ne (hkey : call.key? = some key) (hk : k ≠ key) :
    (s.after call).items[k]? = s.items[k]? := by
  cases call with
  | add l a | update l a =>
    obtain rfl := Option.some.inj hkey
    rcases s.after_add_cases l a with ⟨-, hs⟩ | ⟨-, hs, -⟩
    · exact congrArg (·.items[k]?) hs
    · refine (congrArg (·[k]?) hs).trans ?_
      simp [Std.ExtTreeMap.getElem?_insert, hk.symm]
  | delete l =>
    obtain rfl := Option.some.inj hkey
    rw [(s.after_delete l).1]
    simp [Std.ExtTreeMap.getElem?_erase, hk.symm]
  | replace _ | addFunctions _ => cases hkey

/-- What becomes of the object hangs on it and on the functions only. -/
theorem getElem?_after_congr (hkey : call.key? = some key) (hfunctions : s.functions = t.functions)
    (hitem : s.items[key]? = t.items[key]?) : (s.after call).items[key]? = (t.after call).items[key]? := by
  cases call with
  | add l a | update l a =>
    obtain rfl := Option.some.inj hkey
    rcases s.after_add_cases l a with ⟨hrejects, hs⟩ | ⟨hnot, hs, -⟩
    · rcases t.after_add_cases l a with ⟨-, ht⟩ | ⟨hnot, -⟩
      · exact (congrArg (·.items[l]?) hs).trans (hitem.trans (congrArg (·.items[l]?) ht).symm)
      · exact absurd (hfunctions ▸ hrejects) hnot
    · rcases t.after_add_cases l a with ⟨hrejects, -⟩ | ⟨-, ht, -⟩
      · exact absurd (hfunctions ▸ hrejects) hnot
      · refine (congrArg (·[l]?) hs).trans (Eq.trans ?_ (congrArg (·[l]?) ht).symm)
        simp
  | delete l =>
    obtain rfl := Option.some.inj hkey
    rw [(s.after_delete l).1, (t.after_delete l).1]
    simp
  | replace _ | addFunctions _ => cases hkey

/-- Calls about different objects may change places: neither looks at what the other changes. -/
theorem Sound.after_comm (h : s.Sound) (hkey : call.key? = some key) (hother : other.key? = some k) (hne : key ≠ k) :
    (s.after call).after other = (s.after other).after call := by
  have hfunctions : ((s.after call).after other).functions = ((s.after other).after call).functions := by
    rw [functions_after_of_key hother, functions_after_of_key hkey, functions_after_of_key hkey,
      functions_after_of_key hother]
  refine ((h.after call).after other).eq_of_contents_eq ((h.after other).after call) ?_ hfunctions
  refine Std.ExtTreeMap.ext_getElem? fun l => ?_
  by_cases hl : l = key
  · subst hl
    rw [getElem?_after_of_ne hother hne]
    exact getElem?_after_congr hkey (functions_after_of_key hother).symm (getElem?_after_of_ne hother hne).symm
  · by_cases hl' : l = k
    · subst hl'
      rw [getElem?_after_of_ne (s := s.after other) hkey hl]
      exact getElem?_after_congr hother (functions_after_of_key hkey) (getElem?_after_of_ne hkey hl)
    · rw [getElem?_after_of_ne hother hl', getElem?_after_of_ne hkey hl, getElem?_after_of_ne hkey hl,
        getElem?_after_of_ne hother hl']

/-! ## The history of a store -/

/-- What does not matter to a store: when its indices were registered, how its objects came there,
and in which order. -/
structure KeepsNoHistory (α : Type) : Prop where
  /-- two stores with the same objects and functions have the same indices, by whatever calls they
  came about -/
  indices_eq : ∀ (functions functions' : Table (IndexFunction α)) (calls calls' : List (Call α)),
    ((withFunctions functions).afterAll calls).items = ((withFunctions functions').afterAll calls').items →
    ((withFunctions functions).afterAll calls).functions = ((withFunctions functions').afterAll calls').functions →
    ((withFunctions functions).afterAll calls).indices = ((withFunctions functions').afterAll calls').indices
  /-- indices that never reject an object, and whose names are not registered by the calls before,
  may be registered after these or from the start -/
  registered_late : ∀ (functions new : Table (IndexFunction α)) (before later : List (Call α)),
    (∀ a, ¬Rejects new a) → (∀ name ∈ new, name ∉ ((withFunctions functions).afterAll before).functions) →
    (withFunctions functions).afterAll (before ++ .addFunctions new :: later) =
      (withFunctions (functions.insertMany new.toList)).afterAll (before ++ later)
  /-- objects that are not rejected may replace all others, or be put one by one into an empty
  store -/
  replaced : ∀ (s : Store α) (objects : List (Key × α)), (∀ o ∈ objects, ¬Rejects s.functions o.2) →
    s.replace objects = .ok ((withFunctions s.functions).afterAll (objects.map fun o => .add o.1 o.2))
  /-- calls about different objects may change places -/
  after_comm : ∀ (functions : Table (IndexFunction α)) (calls : List (Call α)) (call other : Call α) (key k : Key),
    call.key? = some key → other.key? = some k → key ≠ k →
    (withFunctions functions).afterAll (calls ++ [call, other]) =
      (withFunctions functions).afterAll (calls ++ [other, call])

theorem afterAll_append (s : Store α) (before later : List (Call α)) :
    s.afterAll (before ++ later) = (s.afterAll before).afterAll later := List.foldl_append

/-- **A store keeps no history**: its objects and its functions determine it, so that an index may
come late, objects may be replaced all at once or put in one by one, and calls about different
objects may come in either order. -/
theorem store_keeps_no_history (α : Type) : KeepsNoHistory α where
  indices_eq functions functions' calls calls' hitems hfunctions :=
    (sound_of_calls functions calls).indices_eq (sound_of_calls functions' calls') hitems hfunctions
  registered_late functions new before later hnever hfresh := by
    rw [afterAll_append, afterAll_append, ← after_addFunctions_of_calls functions new before hnever hfresh]
    rfl
  replaced s objects haccepted := by
    rcases s.replace_cases objects with ⟨e, -, hfirst⟩ | ⟨-, t, ht, -⟩
    · obtain ⟨o, ho, hrejects⟩ := hfirst.exists_mem
      exact absurd hrejects (haccepted o ho)
    · rw [ht, afterAll_add ht]
  after_comm functions calls call other key k hkey hother hne := by
    rw [afterAll_append, afterAll_append]
    exact (sound_of_calls functions calls).after_comm hkey hother hne

/-- An index of labelled objects by how many labels they have; it rejects none. -/
def byCount : Table (IndexFunction (List String)) :=
  (∅ : Table _).insert "count" fun labels => .ok [toString labels.length]

theorem not_rejects_byCount (labels : List String) : ¬Rejects byCount labels := by
  refine not_rejects_iff.mpr fun name f hf => ?_
  simp only [byCount, Std.ExtTreeMap.getElem?_insert, Std.ExtTreeMap.getElem?_empty] at hf
  split at hf
  · cases hf
    exact ⟨_, rfl⟩
  · cases hf

/-- An index that is registered after objects were filed anew, removed and rejected, and before
others come, is the index that was registered before all of them. -/
theorem store_keeps_no_history_of_late_index :
    labelled.afterAll (relabelling ++ .addFunctions byCount :: [.delete "c", .add "d" ["x"]]) =
        (withFunctions (labelled.functions.insertMany byCount.toList)).afterAll
          (relabelling ++ [.delete "c", .add "d" ["x"]]) ∧
      (labelled.afterAll (relabelling ++ .addFunctions byCount :: [.delete "c", .add "d" ["x"]])).indexKeys
        "count" "2" = .ok ["a"] := by
  refine ⟨?_, by rfl⟩
  refine (store_keeps_no_history (List String)).registered_late labelled.functions byCount relabelling
    [.delete "c", .add "d" ["x"]] not_rejects_byCount ?_
  intro name hname
  obtain rfl : "count" = name := by simpa [byCount, Std.ExtTreeMap.mem_insert] using hname
  decide +kernel

end Store

end ControlLoop
