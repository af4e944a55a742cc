import ControlLoop.Proofs.Store.Refusal
import ControlLoop.Proofs.Store.Scan

/-!
# Changes are made as a whole or not at all

A store is changed in place: a call edits the one store there is step by step, and what it has done
when it is refused stays done. `InPlace` has the calls in this form, each edit a step of its own,
and with every place at which a call may be refused: at any index, at any object of a list, at any
object that is stored. For all that no call leaves a store half changed. What it leaves is the store
that the call returns, or the store as it was.

For each call a lemma compares the two forms (`add_on`, `delete_on`, `replace_on`,
`addFunctions_on`): either both are refused for the same reason and the store in place is the store
as it was, or both come to the same store. What is checked before the first edit makes the
difference: in `add` all functions are asked before anything is filed, in `replace` another store is
filled, and `addFunctions` builds the indices beside the store.
-/

namespace ControlLoop.Store

variable {α β γ : Type} {s : Store α}

/-- A change that is made in place: what has been done when it is refused stays done. The state
comes below the exception, so nothing is rolled back. -/
abbrev InPlace (α β : Type) := ExceptT Refusal (StateM (Store α)) β

namespace InPlace

/-- What a change comes to, and the store that it leaves. -/
def on (c : InPlace α β) (s : Store α) : Except Refusal β × Store α := c.run.run s

/-! ## The calls, edit by edit

The calls as they are carried out: edits and checks in the order in which they are made. What is
checked on the way may refuse the call, and then the edits before it have been made. -/

/-- Files a key in one index. -/
def file (key : Key) (name : String) (values : List String) : InPlace α Unit :=
  modify fun s => { s with indices := s.indices.modify name (·.file key values) }

/-- Puts an object under a key, in place of what was there. -/
def add (key : Key) (a : α) : InPlace α Unit := do
  let values ← valuesIn key a (← get).functions.toList
  values.forM fun (name, values) => file key name values
  modify fun s => { s with items := s.items.insert key a }

/-- Removes the object under a key; returns it. -/
def delete (key : Key) : InPlace α (Option α) := do
  match (← get).items[key]? with
  | none => return none
  | some a =>
    modify fun s => { s with items := s.items.erase key }
    modify fun s => { s with indices := s.indices.map fun _ f => f.purge key }
    return some a

/-- Replaces all objects: another store is filled and takes the place of the store. -/
def replace (objects : List (Key × α)) : InPlace α Unit := do
  let filled ← (withFunctions (← get).functions).addAll objects
  set filled

/-- Registers more indices; what is stored is filed in them. -/
def addFunctions (new : Table (IndexFunction α)) : InPlace α Unit := do
  let s ← get
  match new.keys.find? (· ∈ s.functions) with
  | some name => throw (.alreadyRegistered name)
  | none =>
    let filings ← build s.items.toList new.toList
    modify fun s => { s with indices := s.indices.insertMany filings }
    modify fun s => { s with functions := s.functions.insertMany new.toList }

/-! ## What they leave

`on_bind` says what one part of a call leaves to the next. With it each call is taken apart at its
checks: up to the last of them there is no edit of the store, or only of another one, and behind it
nothing is refused. -/

theorem on_get_bind (g : Store α → InPlace α γ) : (get >>= g).on s = (g s).on s := rfl

/-- One change after another: the second begins at what the first leaves, and is not made if the
first is refused. -/
theorem on_bind (c : InPlace α β) (g : β → InPlace α γ) :
    (c >>= g).on s = match c.on s with
      | (.ok b, t) => (g b).on t
      | (.error e, t) => (.error e, t) := by
  simp only [on, ExceptT.run_bind, StateT.run_bind]
  rcases c.run.run s with ⟨e | b, t⟩ <;> rfl

theorem on_bind_of_ok {c : InPlace α β} {b : β} {t : Store α} (h : c.on s = (.ok b, t)) (g : β → InPlace α γ) :
    (c >>= g).on s = (g b).on t := by
  rw [on_bind, h]

/-- What is checked without an edit ends the change if it fails. -/
theorem on_check_of_error {check : Except Refusal β} {e : Refusal} (h : check = .error e) (g : β → InPlace α γ) :
    ((liftM check : InPlace α β) >>= g).on s = (.error e, s) := by
  rw [h]
  rfl

theorem on_check_of_ok {check : Except Refusal β} {b : β} (h : check = .ok b) (g : β → InPlace α γ) :
    ((liftM check : InPlace α β) >>= g).on s = (g b).on s := by
  rw [h]
  rfl

/-- Edits one after the other do what `fileIn` does at once. -/
theorem on_forM_file (key : Key) (values : List (String × List String)) (s : Store α) :
    (values.forM fun entry => file key entry.1 entry.2 : InPlace α Unit).on s =
      (.ok (), { s with indices := fileIn key s.indices values }) := by
  induction values generalizing s with
  | nil => rfl
  | cons entry values ih => exact ih _

/-- An object is put in as a whole or not at all: all functions have been asked when the first edit
is made. -/
theorem add_on (s : Store α) (key : Key) (a : α) :
    (∃ e, s.add key a = .error e ∧ (add key a).on s = (.error e, s)) ∨
    (∃ t, s.add key a = .ok t ∧ (add key a).on s = (.ok (), t)) := by
  cases h : valuesIn key a s.functions.toList with
  | error e => exact .inl ⟨e, bind_eq_error.mpr (.inl h), on_check_of_error h _⟩
  | ok values =>
    refine .inr ⟨_, bind_eq_ok.mpr ⟨values, h, rfl⟩, ?_⟩
    refine (on_check_of_ok h _).trans ?_
    exact on_bind_of_ok (on_forM_file key values s) _

/-- Removing an object is never refused. -/
theorem delete_on (s : Store α) (key : Key) : (delete key).on s = (.ok (s.delete key).1, (s.delete key).2) := by
  unfold delete Store.delete
  rw [on_get_bind]
  cases s.items[key]? with
  | none => rfl
  | some a => rfl

/-- The objects are replaced all at once: what is filled, and thrown away if an object is rejected,
is another store. -/
theorem replace_on (s : Store α) (objects : List (Key × α)) :
    (∃ e, s.replace objects = .error e ∧ (replace objects).on s = (.error e, s)) ∨
    (∃ t, s.replace objects = .ok t ∧ (replace objects).on s = (.ok (), t)) := by
  cases h : s.replace objects with
  | error e => exact .inl ⟨e, rfl, on_check_of_error h _⟩
  | ok t => exact .inr ⟨t, rfl, on_check_of_ok h _⟩

/-- The indices are filled before the first of them is registered. -/
theorem addFunctions_on (s : Store α) (new : Table (IndexFunction α)) :
    (∃ e, s.addFunctions new = .error e ∧ (addFunctions new).on s = (.error e, s)) ∨
    (∃ t, s.addFunctions new = .ok t ∧ (addFunctions new).on s = (.ok (), t)) := by
  unfold addFunctions Store.addFunctions
  rw [on_get_bind]
  cases new.keys.find? (· ∈ s.functions) with
  | some name => exact .inl ⟨_, rfl, rfl⟩
  | none =>
    cases build s.items.toList new.toList with
    | error e => exact .inl ⟨e, rfl, rfl⟩
    | ok filings => exact .inr ⟨_, rfl, rfl⟩

end InPlace

/-- A call, made in place. -/
def Call.inPlace : Call α → InPlace α Unit
  | .add key a => InPlace.add key a
  | .update key a => InPlace.add key a
  | .delete key => discard (InPlace.delete key)
  | .replace objects => InPlace.replace objects
  | .addFunctions new => InPlace.addFunctions new

/-- The store that a call returns, if it is not refused. -/
def attempt (s : Store α) : Call α → Except Refusal (Store α)
  | .add key a => s.add key a
  | .update key a => s.update key a
  | .delete key => .ok (s.delete key).2
  | .replace objects => s.replace objects
  | .addFunctions new => s.addFunctions new

/-- In place or not, a call comes to the same, and one that is refused leaves the store as it was.
From here on `attempt` and `after` may be used instead of the edits. -/
theorem inPlace_on (s : Store α) (call : Call α) :
    (∃ e, s.attempt call = .error e ∧ call.inPlace.on s = (.error e, s)) ∨
    (∃ t, s.attempt call = .ok t ∧ call.inPlace.on s = (.ok (), t)) := by
  cases call with
  | add key a => exact InPlace.add_on s key a
  | update key a => exact InPlace.add_on s key a
  | delete key => exact .inr ⟨_, rfl, InPlace.on_bind_of_ok (InPlace.delete_on s key) _⟩
  | replace objects => exact InPlace.replace_on s objects
  | addFunctions new => exact InPlace.addFunctions_on s new

/-! ## What is listed last

Of several objects that are listed for one key the last one stays, as each takes the place of the
one before it. -/

/-- The object is listed for the key, and no other is listed for it later. -/
def ListedLast (objects : List (Key × α)) (key : Key) (a : α) : Prop :=
  ∃ before after, objects = before ++ (key, a) :: after ∧ ∀ o ∈ after, o.1 ≠ key

theorem listedLast_cons {object : Key × α} {objects : List (Key × α)} {key : Key} {a : α} :
    ListedLast (object :: objects) key a ↔
      ListedLast objects key a ∨ object = (key, a) ∧ ∀ o ∈ objects, o.1 ≠ key := by
  constructor
  · rintro ⟨before, after, heq, hafter⟩
    rcases List.cons_eq_append_iff.mp heq with ⟨rfl, hcons⟩ | ⟨before', rfl, rfl⟩
    · obtain ⟨rfl, rfl⟩ := List.cons.inj hcons
      exact .inr ⟨rfl, hafter⟩
    · exact .inl ⟨before', after, rfl, hafter⟩
  · rintro (⟨before, after, rfl, hafter⟩ | ⟨rfl, hafter⟩)
    · exact ⟨object :: before, after, rfl, hafter⟩
    · exact ⟨[], objects, rfl, hafter⟩

/-- Of the objects put into a table one after the other the last of a key stays, and a key that is
not listed keeps its own. -/
theorem getElem?_insertMany_iff (items : Table α) (objects : List (Key × α)) (key : Key) (a : α) :
    (items.insertMany objects)[key]? = some a ↔
      ListedLast objects key a ∨ items[key]? = some a ∧ ∀ o ∈ objects, o.1 ≠ key := by
  induction objects generalizing items with
  | nil => simp [ListedLast]
  | cons object objects ih =>
    obtain ⟨k, b⟩ := object
    rw [Std.ExtTreeMap.insertMany_cons, ih, listedLast_cons, Std.ExtTreeMap.getElem?_insert, or_assoc]
    refine or_congr_right ?_
    by_cases hk : k = key
    · simp [hk]
    · simp [hk]

/-- After a replacement the object of a key is the one listed last for it. -/
theorem replace_last {s t : Store α} {objects : List (Key × α)} (h : s.replace objects = .ok t) (key : Key) (a : α) :
    t.items[key]? = some a ↔ ListedLast objects key a := by
  rcases s.replace_cases objects with ⟨e, he, -⟩ | ⟨-, t', ht, hitems, -⟩
  · cases he.symm.trans h
  · obtain rfl := Except.ok.inj (ht.symm.trans h)
    rw [hitems, getElem?_insertMany_iff]
    simp

/-! ## What calls are refused for

Both directions of each condition are read off the lemma that tells all outcomes of the call, since
the outcomes come with conditions that exclude each other. -/

theorem add_eq_error_iff (s : Store α) (key : Key) (a : α) :
    (∃ e, s.add key a = .error e) ↔ Rejects s.functions a := by
  rcases s.add_cases key a with ⟨e, he, hrejects⟩ | ⟨hnot, t, ht, -⟩
  · exact iff_of_true ⟨e, he⟩ hrejects.rejects
  · exact iff_of_false (by simp [ht]) hnot

theorem replace_eq_error_iff (s : Store α) (objects : List (Key × α)) :
    (∃ e, s.replace objects = .error e) ↔ ∃ o ∈ objects, Rejects s.functions o.2 := by
  rcases s.replace_cases objects with ⟨e, he, hfirst⟩ | ⟨hall, t, ht, -⟩
  · exact iff_of_true ⟨e, he⟩ hfirst.exists_mem
  · exact iff_of_false (by simp [ht]) (by simpa using hall)

/-- A replacement is refused for the first object of the list that a function rejects. -/
theorem rejectsFirst_of_replace {objects : List (Key × α)} {e : Refusal} (h : s.replace objects = .error e) :
    RejectsFirst s.functions objects e := by
  rcases s.replace_cases objects with ⟨e', he', hfirst⟩ | ⟨-, t, ht, -⟩
  · obtain rfl := Except.error.inj (he'.symm.trans h)
    exact hfirst
  · cases ht.symm.trans h

/-- What indices are refused for: a name that is registered, or an object that is stored. -/
theorem named_of_addFunctions {new : Table (IndexFunction α)} {e : Refusal} (h : s.addFunctions new = .error e) :
    (∃ name ∈ new, name ∈ s.functions ∧ e = .alreadyRegistered name) ∨
      ∃ (key : Key) (a : α), s.items[key]? = some a ∧ RejectsWith new key a e := by
  rcases s.addFunctions_cases new with
    ⟨name, he, hnew, hold⟩ | ⟨-, e', key, a, he, ha, hrejects⟩ | ⟨-, -, t, ht, -⟩
  · exact .inl ⟨name, hnew, hold, Except.error.inj (h.symm.trans he)⟩
  · obtain rfl := Except.error.inj (he.symm.trans h)
    exact .inr ⟨key, a, ha, hrejects⟩
  · cases ht.symm.trans h

/-- Indices are refused for a name exactly if one of the names is registered. -/
theorem addFunctions_eq_alreadyRegistered_iff (s : Store α) (new : Table (IndexFunction α)) :
    (∃ name, s.addFunctions new = .error (.alreadyRegistered name)) ↔ ∃ name ∈ new, name ∈ s.functions := by
  constructor
  · rintro ⟨name, h⟩
    rcases named_of_addFunctions h with ⟨name, hnew, hold, -⟩ | ⟨_, _, -, _, _, _, -, -, he⟩
    · exact ⟨name, hnew, hold⟩
    · cases he
  · rintro ⟨name, hnew, hold⟩
    rcases s.addFunctions_cases new with ⟨name, he, -⟩ | ⟨hfree, -⟩ | ⟨hfree, -⟩
    · exact ⟨name, he⟩
    · exact absurd hold (hfree name hnew)
    · exact absurd hold (hfree name hnew)

/-- If all names are free, they are refused for an object exactly if a new function rejects one that
is stored. -/
theorem addFunctions_eq_indexFunction_iff {new : Table (IndexFunction α)} (hfree : ∀ name ∈ new, name ∉ s.functions) :
    (∃ index key reason, s.addFunctions new = .error (.indexFunction index key reason)) ↔
      ∃ (key : Key) (a : α), s.items[key]? = some a ∧ Rejects new a := by
  constructor
  · rintro ⟨index, key, reason, h⟩
    rcases named_of_addFunctions h with ⟨name, hnew, hold, -⟩ | ⟨key, a, ha, hrejects⟩
    · exact absurd hold (hfree name hnew)
    · exact ⟨key, a, ha, hrejects.rejects⟩
  · rintro ⟨key, a, ha, hrejects⟩
    rcases s.addFunctions_cases new with
      ⟨name, -, hnew, hold⟩ | ⟨-, e, first, b, he, -, index, f, reason, -, -, rfl⟩ | ⟨-, hnot, -⟩
    · exact absurd hold (hfree name hnew)
    · exact ⟨index, first, reason, he⟩
    · exact absurd hrejects (hnot key a ha)

/-- Removing a key that is not stored returns nothing, and changes nothing. -/
theorem delete_of_absent {key : Key} (hkey : s.items[key]? = none) :
    s.delete key = (none, s) ∧ (InPlace.delete key).on s = (.ok none, s) := by
  have hdelete : s.delete key = (none, s) := by rw [Store.delete, hkey]
  refine ⟨hdelete, ?_⟩
  rw [InPlace.delete_on, hdelete]

/-! ## The calls -/

theorem inPlace_on_snd (s : Store α) (call : Call α) : (call.inPlace.on s).2 = s.after call := by
  have hafter : s.after call = (s.attempt call).toOption.getD s := by cases call <;> rfl
  rcases s.inPlace_on call with ⟨e, he, hon⟩ | ⟨t, ht, hon⟩
  · rw [hafter, hon, getD_of_error he]
  · rw [hafter, hon, getD_of_ok ht]

/-- Calls are made as a whole or not at all, and refused for a good reason only. -/
structure AllOrNothing (s : Store α) : Prop where
  /-- made in place, a call that is refused leaves the whole store as it was; one that is not leaves
  what it returns -/
  inPlace : ∀ call : Call α, (∃ e, s.attempt call = .error e ∧ call.inPlace.on s = (.error e, s)) ∨
    (∃ t, s.attempt call = .ok t ∧ call.inPlace.on s = (.ok (), t))
  /-- so a run of calls in place leads where the calls lead -/
  leaves : ∀ call : Call α, (call.inPlace.on s).2 = s.after call
  /-- an object is refused exactly if one of the functions rejects it -/
  add_refused : ∀ key a, (∃ e, s.add key a = .error e) ↔ Rejects s.functions a
  /-- so it is by the other name -/
  update_refused : ∀ key a, (∃ e, s.update key a = .error e) ↔ Rejects s.functions a
  /-- other objects are refused exactly if one of the functions rejects one of them -/
  replace_refused : ∀ objects, (∃ e, s.replace objects = .error e) ↔ ∃ o ∈ objects, Rejects s.functions o.2
  /-- the refusal names the first that is rejected -/
  replace_first : ∀ objects e, s.replace objects = .error e → RejectsFirst s.functions objects e
  /-- if they are not refused, what is under a key afterwards is the object listed last for it -/
  replace_last : ∀ objects t, s.replace objects = .ok t → ∀ key a, t.items[key]? = some a ↔ ListedLast objects key a
  /-- indices are refused for their names exactly if one of the names is registered already -/
  addFunctions_registered : ∀ new, (∃ name, s.addFunctions new = .error (.alreadyRegistered name)) ↔
    ∃ name ∈ new, name ∈ s.functions
  /-- otherwise they are refused exactly if one of them rejects an object that is stored -/
  addFunctions_refused : ∀ new, (∀ name ∈ new, name ∉ s.functions) →
    ((∃ index key reason, s.addFunctions new = .error (.indexFunction index key reason)) ↔
      ∃ (key : Key) (a : α), s.items[key]? = some a ∧ Rejects new a)
  /-- there is no other refusal of indices, and this one names a function, and the object it
  rejects -/
  addFunctions_names : ∀ new e, s.addFunctions new = .error e →
    (∃ name ∈ new, name ∈ s.functions ∧ e = .alreadyRegistered name) ∨
      ∃ (key : Key) (a : α), s.items[key]? = some a ∧ RejectsWith new key a e
  /-- where there is no object, none is removed, and nothing changes -/
  delete_absent : ∀ key : Key, s.items[key]? = none →
    s.delete key = (none, s) ∧ (InPlace.delete key).on s = (.ok none, s)

/-- **Store mutations are all-or-nothing**: whatever store a call finds, it is made as a whole or
not at all, and it is refused exactly if a function rejects an object or a name is registered
already. -/
theorem mutations_are_all_or_nothing (s : Store α) : s.AllOrNothing where
  inPlace := s.inPlace_on
  leaves := s.inPlace_on_snd
  add_refused := s.add_eq_error_iff
  update_refused := s.add_eq_error_iff
  replace_refused := s.replace_eq_error_iff
  replace_first _ _ h := rejectsFirst_of_replace h
  replace_last _ _ h := replace_last h
  addFunctions_registered := s.addFunctions_eq_alreadyRegistered_iff
  addFunctions_refused _ hfree := addFunctions_eq_indexFunction_iff hfree
  addFunctions_names _ _ h := named_of_addFunctions h
  delete_absent _ hkey := delete_of_absent hkey

/-- Of three objects that are to replace all others the second is the first to be rejected. -/
theorem mutations_are_all_or_nothing_of_replace :
    ∃ s, labelled.afterAll relabelling = s ∧ s.keys = ["a", "c"] ∧
      (InPlace.replace [("e", ["x"]), ("f", []), ("g", [])]).on s =
        (.error (.indexFunction "label" "f" "no label"), s) := by
  generalize hs : labelled.afterAll relabelling = s
  refine ⟨s, rfl, by rw [← hs]; decide +kernel, ?_⟩
  have hrefused : s.replace [("e", ["x"]), ("f", []), ("g", [])] = .error (.indexFunction "label" "f" "no label") := by
    rw [← hs]
    rfl
  rcases (mutations_are_all_or_nothing s).inPlace (.replace [("e", ["x"]), ("f", []), ("g", [])]) with
    ⟨e, he, hon⟩ | ⟨t, ht, -⟩
  · obtain rfl := Except.error.inj (hrefused.symm.trans he)
    exact hon
  · cases hrefused.symm.trans ht

end ControlLoop.Store
