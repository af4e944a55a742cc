import ControlLoop.Proofs.Store.Indexed

/-!
# When a store refuses

A store refuses a call for two reasons only: an index function rejects an object, or an index of a
name that is to be registered is registered already. For each call there is one lemma that tells all
its outcomes: what it is refused for and whom the refusal names, and what becomes of the objects and
of the functions if it is not refused. Whether a call is refused, and what it does, never hangs on
the indices.
-/

namespace ControlLoop

theorem bind_eq_error {ε β γ : Type} {x : Except ε β} {g : β → Except ε γ} {e : ε} :
    x >>= g = .error e ↔ x = .error e ∨ ∃ b, x = .ok b ∧ g b = .error e := by
  cases x with
  | error e' => simp [bind, Except.bind]
  | ok b => simp [bind, Except.bind]

variable {α : Type}

theorem IndexFunction.valuesFor_eq_error {name : String} {f : IndexFunction α} {key : Key} {a : α} {e : Refusal} :
    f.valuesFor name key a = .error e ↔ ∃ reason, f a = .error reason ∧ e = .indexFunction name key reason := by
  unfold valuesFor
  cases f a with
  | error reason => simp [eq_comm]
  | ok values => simp

namespace Store

variable {functions new : Table (IndexFunction α)} {objects : List (Key × α)} {key : Key} {a : α} {e : Refusal}

/-- One of the functions rejects an object. -/
def Rejects (functions : Table (IndexFunction α)) (a : α) : Prop :=
  ∃ (name : String) (f : IndexFunction α) (reason : String), functions[name]? = some f ∧ f a = .error reason

/-- A refusal names a function that rejects the object of a key, and tells why. -/
def RejectsWith (functions : Table (IndexFunction α)) (key : Key) (a : α) (e : Refusal) : Prop :=
  ∃ (name : String) (f : IndexFunction α) (reason : String),
    functions[name]? = some f ∧ f a = .error reason ∧ e = .indexFunction name key reason

/-- A refusal names the first object of a list that one of the functions rejects. -/
def RejectsFirst (functions : Table (IndexFunction α)) (objects : List (Key × α)) (e : Refusal) : Prop :=
  ∃ before key a after, objects = before ++ (key, a) :: after ∧ (∀ o ∈ before, ¬Rejects functions o.2) ∧
    RejectsWith functions key a e

theorem RejectsWith.rejects (h : RejectsWith functions key a e) : Rejects functions a := by
  obtain ⟨name, f, reason, hf, ha, -⟩ := h
  exact ⟨name, f, reason, hf, ha⟩

theorem RejectsFirst.exists_mem (h : RejectsFirst functions objects e) : ∃ o ∈ objects, Rejects functions o.2 := by
  obtain ⟨before, key, a, after, rfl, -, hrejects⟩ := h
  exact ⟨(key, a), List.mem_append_right _ List.mem_cons_self, hrejects.rejects⟩

/-- An object that no function rejects has values in every index. -/
theorem not_rejects_iff :
    ¬Rejects functions a ↔ ∀ (name : String) (f : IndexFunction α), functions[name]? = some f →
      ∃ values, f a = .ok values := by
  constructor
  · intro h name f hf
    cases ha : f a with
    | ok values => exact ⟨values, rfl⟩
    | error reason => exact absurd ⟨name, f, reason, hf, ha⟩ h
  · rintro h ⟨name, f, reason, hf, ha⟩
    obtain ⟨values, hvalues⟩ := h name f hf
    rw [ha] at hvalues
    cases hvalues

theorem getD_of_error {s : Store α} {result : Except Refusal (Store α)} {e : Refusal} (h : result = .error e) :
    result.toOption.getD s = s := by
  rw [h]
  rfl

theorem getD_of_ok {s t : Store α} {result : Except Refusal (Store α)} (h : result = .ok t) :
    result.toOption.getD s = t := by
  rw [h]
  rfl

/-- What is made of the entries of a list fails as one of them does. -/
theorem labelled_eq_error {ε β γ : Type} {g : String → β → Except ε γ} {entries : List (String × β)} {e : ε}
    (h : (entries.mapM fun entry => (entry.1, ·) <$> g entry.1 entry.2) = .error e) :
    ∃ entry ∈ entries, g entry.1 entry.2 = .error e := by
  induction entries with
  | nil => cases h
  | cons entry entries ih =>
    rw [List.mapM_cons, map_eq_pure_bind] at h
    rcases bind_eq_error.mp h with hentry | ⟨result, -, h⟩
    · rcases bind_eq_error.mp hentry with hg | ⟨_, -, hpure⟩
      · exact ⟨entry, List.mem_cons_self, hg⟩
      · cases hpure
    · rcases bind_eq_error.mp h with hentries | ⟨_, -, hpure⟩
      · obtain ⟨other, hmem, hg⟩ := ih hentries
        exact ⟨other, List.mem_cons_of_mem entry hmem, hg⟩
      · cases hpure

/-! ## Putting objects in

The functions are asked one after the other, and the first that rejects the object is named. Which
one this is does not matter later, so the lemmas speak of some function. -/

/-- When asking for the values of an object fails, a function rejects the object, and the refusal
names it. -/
theorem rejectsWith_of_valuesIn (h : valuesIn key a functions.toList = .error e) : RejectsWith functions key a e := by
  rw [valuesIn_eq_mapM] at h
  obtain ⟨⟨name, f⟩, hmem, hg⟩ := labelled_eq_error (g := fun name f => IndexFunction.valuesFor name f key a) h
  obtain ⟨reason, ha, rfl⟩ := IndexFunction.valuesFor_eq_error.mp hg
  exact ⟨name, f, reason, Std.ExtTreeMap.mem_toList_iff_getElem?_eq_some.mp hmem, ha, rfl⟩

theorem not_rejects_of_valuesIn {values : List (String × List String)}
    (h : valuesIn key a functions.toList = .ok values) : ¬Rejects functions a := by
  rw [valuesIn_eq_mapM] at h
  obtain ⟨-, hmem⟩ := labelled_of_mapM (g := fun name f => IndexFunction.valuesFor name f key a) h
  refine not_rejects_iff.mpr fun name f hf => ?_
  obtain ⟨vs, -, hvs⟩ := hmem (name, f) (Std.ExtTreeMap.mem_toList_iff_getElem?_eq_some.mpr hf)
  obtain ⟨all, hall, -⟩ := IndexFunction.valuesFor_eq_ok.mp hvs
  exact ⟨all, hall⟩

/-- An object is refused if a function rejects it, and put in otherwise. -/
theorem add_cases (s : Store α) (key : Key) (a : α) :
    (∃ e, s.add key a = .error e ∧ RejectsWith s.functions key a e) ∨
    (¬Rejects s.functions a ∧ ∃ t, s.add key a = .ok t ∧ t.items = s.items.insert key a ∧
      t.functions = s.functions) := by
  cases h : valuesIn key a s.functions.toList with
  | error e => exact .inl ⟨e, bind_eq_error.mpr (.inl h), rejectsWith_of_valuesIn h⟩
  | ok values => exact .inr ⟨not_rejects_of_valuesIn h, _, bind_eq_ok.mpr ⟨values, h, rfl⟩, rfl, rfl⟩

/-- Objects are refused for the first that a function rejects, and all put in if there is none.
Those before it have been put into a store that is thrown away. -/
theorem addAll_cases (s : Store α) (objects : List (Key × α)) :
    (∃ e, s.addAll objects = .error e ∧ RejectsFirst s.functions objects e) ∨
    ((∀ o ∈ objects, ¬Rejects s.functions o.2) ∧ ∃ t, s.addAll objects = .ok t ∧
      t.items = s.items.insertMany objects ∧ t.functions = s.functions) := by
  induction objects generalizing s with
  | nil => exact .inr ⟨by simp, s, rfl, Std.ExtTreeMap.insertMany_nil.symm, rfl⟩
  | cons object objects ih =>
    obtain ⟨key, a⟩ := object
    rcases s.add_cases key a with ⟨e, hadd, hrejects⟩ | ⟨hnot, next, hadd, hitems, hfunctions⟩
    · refine .inl ⟨e, bind_eq_error.mpr (.inl hadd), [], key, a, objects, rfl, by simp, hrejects⟩
    · rw [← hfunctions] at hnot ⊢
      rcases ih next with ⟨e, hall, before, k, b, after, rfl, hbefore, hrejects⟩ | ⟨hall, t, ht, hitems', hfunctions'⟩
      · refine .inl ⟨e, bind_eq_error.mpr (.inr ⟨next, hadd, hall⟩), (key, a) :: before, k, b, after, rfl, ?_, hrejects⟩
        exact List.forall_mem_cons.mpr ⟨hnot, hbefore⟩
      · refine .inr ⟨List.forall_mem_cons.mpr ⟨hnot, hall⟩, t, bind_eq_ok.mpr ⟨next, hadd, ht⟩, ?_, hfunctions'⟩
        rw [hitems', hitems, Std.ExtTreeMap.insertMany_cons]

/-- The objects of a store are replaced by the objects listed, unless one of these is rejected. -/
theorem replace_cases (s : Store α) (objects : List (Key × α)) :
    (∃ e, s.replace objects = .error e ∧ RejectsFirst s.functions objects e) ∨
    ((∀ o ∈ objects, ¬Rejects s.functions o.2) ∧ ∃ t, s.replace objects = .ok t ∧
      t.items = (∅ : Table α).insertMany objects ∧ t.functions = s.functions) :=
  (withFunctions s.functions).addAll_cases objects

/-! ## More indices

Names are checked before objects are: so if a name is taken the refusal is for the name, whatever
the new functions think of the objects. -/

/-- Filling an index is refused for an object that its function rejects, and otherwise files all
objects. -/
theorem fill_cases (name : String) (f : IndexFunction α) (filing : Filing) (objects : List (Key × α)) :
    (∃ e, fill name f filing objects = .error e ∧
      ∃ o ∈ objects, ∃ reason, f o.2 = .error reason ∧ e = .indexFunction name o.1 reason) ∨
    ((∀ o ∈ objects, ∃ values, f o.2 = .ok values) ∧ ∃ filled, fill name f filing objects = .ok filled) := by
  induction objects generalizing filing with
  | nil => exact .inr ⟨by simp, filing, rfl⟩
  | cons object objects ih =>
    obtain ⟨key, a⟩ := object
    cases hvalues : f.valuesFor name key a with
    | error e =>
      refine .inl ⟨e, bind_eq_error.mpr (.inl hvalues), (key, a), List.mem_cons_self, ?_⟩
      exact IndexFunction.valuesFor_eq_error.mp hvalues
    | ok values =>
      obtain ⟨all, hall, -⟩ := IndexFunction.valuesFor_eq_ok.mp hvalues
      rcases ih (filing.file key values) with ⟨e, hfill, o, ho, hreason⟩ | ⟨hok, filled, hfill⟩
      · exact .inl ⟨e, bind_eq_error.mpr (.inr ⟨values, hvalues, hfill⟩), o, List.mem_cons_of_mem _ ho, hreason⟩
      · exact .inr ⟨List.forall_mem_cons.mpr ⟨⟨all, hall⟩, hok⟩, filled, bind_eq_ok.mpr ⟨values, hvalues, hfill⟩⟩

/-- Building several indices is refused if one of them rejects an object, and the refusal names that
index and that object. -/
theorem build_cases (new : Table (IndexFunction α)) (objects : List (Key × α)) :
    (∃ e, build objects new.toList = .error e ∧ ∃ o ∈ objects, RejectsWith new o.1 o.2 e) ∨
    ((∀ o ∈ objects, ¬Rejects new o.2) ∧ ∃ filings, build objects new.toList = .ok filings) := by
  cases h : build objects new.toList with
  | error e =>
    rw [build_eq_mapM] at h
    obtain ⟨⟨name, f⟩, hmem, hg⟩ := labelled_eq_error (g := fun name f => fill name f Filing.empty objects) h
    have hf := Std.ExtTreeMap.mem_toList_iff_getElem?_eq_some.mp hmem
    rcases fill_cases name f Filing.empty objects with ⟨e', he', o, ho, reason, ha, rfl⟩ | ⟨-, filled, hfilled⟩
    · obtain rfl := Except.error.inj (hg.symm.trans he')
      exact .inl ⟨_, rfl, o, ho, name, f, reason, hf, ha, rfl⟩
    · cases hg.symm.trans hfilled
  | ok filings =>
    refine .inr ⟨fun o ho => not_rejects_iff.mpr fun name f hf => ?_, filings, rfl⟩
    obtain ⟨-, hfilled⟩ := indices_of_build h
    obtain ⟨filing, -, hfill⟩ := hfilled name f ∅ hf
    rcases fill_cases name f Filing.empty objects with ⟨e, he, -⟩ | ⟨hok, -⟩
    · cases hfill.symm.trans he
    · exact hok o ho

/-- Indices are refused if a name is registered already, or else if one of them rejects an object
that is stored; otherwise they are registered. -/
theorem addFunctions_cases (s : Store α) (new : Table (IndexFunction α)) :
    (∃ name, s.addFunctions new = .error (.alreadyRegistered name) ∧ name ∈ new ∧ name ∈ s.functions) ∨
    ((∀ name ∈ new, name ∉ s.functions) ∧ ∃ e key a, s.addFunctions new = .error e ∧ s.items[key]? = some a ∧
      RejectsWith new key a e) ∨
    ((∀ name ∈ new, name ∉ s.functions) ∧ (∀ (key : Key) (a : α), s.items[key]? = some a → ¬Rejects new a) ∧
      ∃ t, s.addFunctions new = .ok t ∧ t.items = s.items ∧ t.functions = s.functions.insertMany new.toList) := by
  unfold Store.addFunctions
  cases hfind : new.keys.find? (· ∈ s.functions) with
  | some name =>
    refine .inl ⟨name, rfl, ?_, ?_⟩
    · exact Std.ExtTreeMap.mem_keys.mp (List.mem_of_find?_eq_some hfind)
    · simpa using List.find?_some hfind
  | none =>
    have hfree : ∀ name ∈ new, name ∉ s.functions := by
      intro name hname
      simpa using List.find?_eq_none.mp hfind name (Std.ExtTreeMap.mem_keys.mpr hname)
    refine .inr ?_
    rcases build_cases new s.items.toList with ⟨e, he, ⟨key, a⟩, ho, hrejects⟩ | ⟨hok, filings, hfilings⟩
    · refine .inl ⟨hfree, e, key, a, bind_eq_error.mpr (.inl he), ?_, hrejects⟩
      exact Std.ExtTreeMap.mem_toList_iff_getElem?_eq_some.mp ho
    · refine .inr ⟨hfree, fun key a ha => ?_, _, bind_eq_ok.mpr ⟨filings, hfilings, rfl⟩, rfl, rfl⟩
      exact hok (key, a) (Std.ExtTreeMap.mem_toList_iff_getElem?_eq_some.mpr ha)

end Store

end ControlLoop
