import ControlLoop.Daemon.Basic
import ControlLoop.Proofs.Store.History
import ControlLoop.Proofs.Store.Scan

/-!
# Lines and objects

What a line does to the objects, and what is reported when an object is reconciled. A line that is
blank, bad or refused does nothing (`take?`); any other names a key, and changes nothing but the
object under that key.

A reconciler looks twice: it fetches the object, and then asks the index for the objects of the same
tenant (`conclude`), by when the objects may have changed. As the index is always there the second
look finds no fault, so what is reported depends only on what the first look has found
(`error?_conclude`).
-/

namespace ControlLoop

namespace TenantStore

variable {s t : TenantStore} {key other : Key} {line : String}

/-! ## Lines -/

/-- The key that a line names and the objects after it, if it is neither blank nor bad and is not
refused. -/
def take? (s : TenantStore) (line : String) : Option (Key × TenantStore) :=
  if (Text.trim line.toList).isEmpty then none else (s.applyLine line).toOption

/-- Takes in one more line; `taken` holds the keys that have been named so far, and the objects. -/
def takeMore (taken : List Key × TenantStore) (line : String) : List Key × TenantStore :=
  match taken.2.take? line with
  | some (key, store) => (taken.1 ++ [key], store)
  | none => taken

/-- The keys that some lines name, and the objects that they leave. -/
def takeAll (lines : List String) : List Key × TenantStore := lines.foldl takeMore ([], empty)

theorem takeAll_concat_of_none {lines : List String} (h : (takeAll lines).2.take? line = none) :
    takeAll (lines ++ [line]) = takeAll lines := by
  rw [takeAll, List.foldl_concat, ← takeAll, takeMore, h]

theorem takeAll_concat_of_some {lines : List String} (h : (takeAll lines).2.take? line = some (key, t)) :
    takeAll (lines ++ [line]) = ((takeAll lines).1 ++ [key], t) := by
  rw [takeAll, List.foldl_concat, ← takeAll, takeMore, h]

/-- A line that is taken in puts an object under the key that it names, or takes it away. -/
theorem take?_cases (h : s.take? line = some (key, t)) :
    (∃ tenant spec, Event.parse? line = some (.upsert key tenant spec) ∧ s.add key ⟨key, tenant, spec⟩ = .ok t) ∨
      (Event.parse? line = some (.delete key) ∧ (s.delete key).2 = t) := by
  obtain ⟨-, h⟩ := Option.ite_none_left_eq_some.mp h
  rw [applyLine] at h
  cases hparse : Event.parse? line with
  | none =>
    rw [hparse] at h
    cases h
  | some event =>
    rw [hparse] at h
    cases event with
    | upsert id tenant spec =>
      rcases s.add_cases id ⟨id, tenant, spec⟩ with ⟨e, hadd, -⟩ | ⟨-, u, hadd, -, -⟩
      · simp only [apply, hadd] at h
        cases h
      · simp only [apply, hadd] at h
        cases h
        exact .inl ⟨tenant, spec, rfl, hadd⟩
    | delete id =>
      cases h
      exact .inr ⟨rfl, rfl⟩

/-- Only the object under the key that is named may change. -/
theorem get?_take? (h : s.take? line = some (key, t)) (hne : other ≠ key) : t.get? other = s.get? other := by
  have hne' : ¬compare key other = .eq := fun heq => hne (Std.compare_eq_iff_eq.mp heq).symm
  rcases take?_cases h with ⟨tenant, spec, -, hadd⟩ | ⟨-, rfl⟩
  · obtain ⟨values, -, ht⟩ := bind_eq_ok.mp hadd
    cases ht
    exact (Std.ExtTreeMap.getElem?_insert ..).trans (if_neg hne')
  · have hitems : (s.delete key).2.items = s.items.erase key := (s.after_delete key).1
    rw [Store.get?, Store.get?, hitems, Std.ExtTreeMap.getElem?_erase, if_neg hne']

/-! ## The index by tenant

`Ready` is all that reconciling needs of a store. It is kept by every line, but also holds of stores
with more indices than the one by tenant. -/

/-- The index by tenant is there, and keeps up with the objects. -/
structure Ready (s : TenantStore) : Prop where
  /-- all indices keep up with the objects -/
  sound : s.Sound
  /-- the index by tenant is one of them -/
  indexed : TenantObject.indexName ∈ s.functions

theorem ready_empty : empty.Ready where
  sound := Store.sound_withFunctions _
  indexed := Std.ExtTreeMap.mem_insert_self

/-- A line keeps the index by tenant up to date. -/
theorem Ready.take? (h : s.Ready) (ht : s.take? line = some (key, t)) : t.Ready := by
  rcases take?_cases ht with ⟨tenant, spec, -, hadd⟩ | ⟨-, rfl⟩
  · refine ⟨h.sound.add hadd, ?_⟩
    obtain ⟨values, -, heq⟩ := bind_eq_ok.mp hadd
    cases heq
    exact h.indexed
  · refine ⟨h.sound.delete key, ?_⟩
    have hfunctions : (s.delete key).2.functions = s.functions := (s.after_delete key).2
    rw [hfunctions]
    exact h.indexed

theorem Ready.indexKeys (h : s.Ready) (tenant : String) :
    ∃ keys, s.indexKeys TenantObject.indexName tenant = .ok keys := by
  obtain ⟨f, hf⟩ := Store.exists_of_mem h.indexed
  obtain ⟨keys, hkeys, -⟩ := h.sound.indexKeys_eq hf tenant
  exact ⟨keys, hkeys⟩

/-! ## Reconciling -/

/-- The error that is to be reported about what is found under a key, if any. -/
def fault? (key : Key) (found : Option TenantObject) : Option String :=
  if found.any (·.asksForFailure) then some ("object " ++ key ++ " requested failure") else none

/-- What is reported about what was found under a key; the objects may have changed since. -/
def conclude (s : TenantStore) (key : Key) (found : Option TenantObject) : Except HandlerError Unit :=
  match found with
  | none => .ok ()
  | some o =>
    if o.asksForFailure then .error ⟨"object " ++ key ++ " requested failure"⟩
    else
      match s.indexKeys TenantObject.indexName o.tenant with
      | .ok _ => .ok ()
      | .error e => .error (.ofRefusal e)

/-- To reconcile is to look and to conclude. -/
theorem reconcile_eq_conclude (s : TenantStore) (key : Key) : s.reconcile key = s.conclude key (s.get? key) := by
  unfold reconcile conclude
  rfl

/-- The second look does not matter. -/
theorem Ready.conclude_eq (hs : s.Ready) (ht : t.Ready) (key : Key) (found : Option TenantObject) :
    s.conclude key found = t.conclude key found := by
  cases found with
  | none => rfl
  | some o =>
    obtain ⟨keys, hkeys⟩ := hs.indexKeys o.tenant
    obtain ⟨keys', hkeys'⟩ := ht.indexKeys o.tenant
    simp only [conclude, hkeys, hkeys']

/-- A failure is reported exactly if the object that was found asks for it. What the second look
finds makes no difference. -/
theorem error?_conclude (h : s.Ready) (key : Key) (found : Option TenantObject) :
    (Result.ofExcept (s.conclude key found)).error? = fault? key found := by
  cases found with
  | none => rfl
  | some o =>
    cases ho : o.asksForFailure with
    | true => simp [conclude, fault?, ho, Result.ofExcept, Result.error?]
    | false =>
      obtain ⟨keys, hkeys⟩ := h.indexKeys o.tenant
      simp [conclude, fault?, ho, hkeys, Result.ofExcept, Result.error?]

end TenantStore

/-- The daemon takes a line in by changing its objects and triggering the key that is named. -/
theorem Daemon.takeLine_eq (d : Daemon) (line : String) :
    d.takeLine line =
      match d.state.flight.world.take? line with
      | some (key, store) => ((d.modifyFlight fun f => { f with world := store }).trigger key .manual).2
      | none => d := by
  rw [takeLine, TenantStore.take?, feed]
  split
  · rfl
  · cases d.state.flight.world.applyLine line <;> rfl

end ControlLoop
