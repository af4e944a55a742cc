import Mathlib.Data.List.Induction
import ControlLoop.Proofs.Daemon.Tenant

/-!
# The last event of a key decides

An event takes effect unless it puts an object that has no tenant. Of all events that take effect
only the last one about a key matters: what it leaves is what is stored under the key. A line that
describes no such event is refused, and what was stored before stays as it is. So the objects can be
told from the lines alone (`Follows`), and with them what the index by tenant holds and how each key
is reconciled.

The store is followed line by line: `Tidy.apply_cases` says what one event does to it,
`Tidy.applyLine_cases` what one line does, and `tidy_afterLines` puts them together by induction on
the lines from the end, since it is the last event that counts.
-/

namespace ControlLoop

open Json

theorem Json.Value.get?_eq_some_iff {v w : Value} {name : String} :
    v.get? name = some w ↔ ∃ fields, v = .object fields ∧ fields.lookup name = some w := by
  have hlookup : ∀ fields : List (String × Value),
      (fields.find? (·.1 = name)).map (·.2) = fields.lookup name := by
    intro fields
    induction fields with
    | nil => rfl
    | cons field fields ih =>
      obtain ⟨k, value⟩ := field
      by_cases hk : k = name
      · simp [hk]
      · rw [List.find?_cons_of_neg (by simpa using hk), List.lookup_cons, beq_false_of_ne (Ne.symm hk)]
        exact ih
  cases v with
  | object fields => simp [Value.get?, hlookup]
  | _ => simp [Value.get?]

namespace Event

/-- May the event take effect? An object that is put needs a tenant. -/
def isAcceptable : Event → Bool
  | upsert _ tenant _ => tenant ≠ ""
  | delete _ => true

/-- The event that a line describes, if it takes effect. A line that describes none leaves the store
as it was. -/
def accepted? (line : String) : Option Event := (parse? line).filter isAcceptable

/-- What the event leaves under its key. -/
def left? : Event → Option TenantObject
  | upsert id tenant spec => some ⟨id, tenant, spec⟩
  | delete _ => none

/-- The last of some events that is about a key. -/
def lastAbout? (key : Key) (events : List Event) : Option Event := (events.filter (·.id = key)).getLast?

/-- One more event is the last one about its own key, and about no other. -/
theorem lastAbout?_concat (key : Key) (events : List Event) (e : Event) :
    lastAbout? key (events ++ [e]) = if e.id = key then some e else lastAbout? key events := by
  rw [lastAbout?, List.filter_append]
  split
  · next hid => rw [List.filter_cons_of_pos (by simpa using hid), List.filter_nil, List.getLast?_concat]
  · next hid => rw [List.filter_cons_of_neg (by simpa using hid), List.filter_nil, List.append_nil, lastAbout?]

theorem lastAbout?_mem {key : Key} {events : List Event} {e : Event} (h : lastAbout? key events = some e) :
    e ∈ events ∧ e.id = key := by
  have hmem := List.mem_filter.mp (List.mem_of_getLast? h)
  exact ⟨hmem.1, by simpa using hmem.2⟩

/-- A line has no effect if it describes no event, or puts an object without a tenant. -/
theorem accepted?_eq_none_iff {line : String} :
    accepted? line = none ↔ parse? line = none ∨ ∃ id spec, parse? line = some (.upsert id "" spec) := by
  rw [accepted?]
  cases parse? line with
  | none => simp
  | some e => cases e <;> simp [isAcceptable, Option.filter]

end Event

namespace TenantStore

variable {s t : TenantStore} {key : Key} {line : String} {event : Event} {events : List Event}

/-- The objects after a line, whether it is taken or refused. -/
def afterLine (s : TenantStore) (line : String) : TenantStore :=
  match s.applyLine line with
  | .ok (_, t) => t
  | .error _ => s

/-- The objects after some lines, of which there were none at first. -/
def afterLines (lines : List String) : TenantStore := lines.foldl afterLine empty

theorem afterLines_concat (lines : List String) (line : String) :
    afterLines (lines ++ [line]) = (afterLines lines).afterLine line :=
  List.foldl_concat ..

/-! ## Events

That the index by tenant is the only one matters for refusals: `add` fails only if one of the index
functions does, and the one by tenant fails exactly for an object without a tenant. -/

/-- The index by tenant is the only one, and keeps up with the objects. This is all that has to be
known of a store to tell what an event does to it. -/
structure Tidy (s : TenantStore) : Prop where
  /-- all indices keep up with the objects -/
  sound : s.Sound
  /-- there is no index but the one by tenant -/
  functions : s.functions = empty.functions

theorem tidy_empty : empty.Tidy := ⟨Store.sound_withFunctions _, rfl⟩

theorem getElem?_functions (name : String) :
    empty.functions[name]? = if name = TenantObject.indexName then some TenantObject.byTenant else none := by
  have hname : compare TenantObject.indexName name = .eq ↔ name = TenantObject.indexName := by
    rw [Std.compare_eq_iff_eq, eq_comm]
  show ((∅ : Table (IndexFunction TenantObject)).insert _ _)[name]? = _
  rw [Std.ExtTreeMap.getElem?_insert, Std.ExtTreeMap.getElem?_empty]
  exact if_congr hname rfl rfl

theorem Tidy.byTenant (h : s.Tidy) : s.functions[TenantObject.indexName]? = some TenantObject.byTenant := by
  rw [h.functions, getElem?_functions, if_pos rfl]

theorem Tidy.ready (h : s.Tidy) : s.Ready where
  sound := h.sound
  indexed := by
    rw [h.functions]
    exact Std.ExtTreeMap.mem_insert_self

/-- The index by tenant rejects an object that has none, and no other. -/
theorem Tidy.rejects_iff (h : s.Tidy) (o : TenantObject) : Store.Rejects s.functions o ↔ o.tenant = "" := by
  rw [h.functions]
  constructor
  · rintro ⟨name, f, reason, hf, hreason⟩
    rw [getElem?_functions] at hf
    obtain ⟨-, hf⟩ := Option.ite_none_right_eq_some.mp hf
    cases hf
    by_contra hne
    rw [TenantObject.byTenant, if_neg (by simpa using hne)] at hreason
    cases hreason
  · intro ho
    refine ⟨TenantObject.indexName, TenantObject.byTenant, "tenant must not be empty", ?_, ?_⟩
    · rw [getElem?_functions, if_pos rfl]
    · rw [TenantObject.byTenant, if_pos (by simp [ho])]

/-- An object is filed under its tenant, and under nothing else. -/
theorem yields_byTenant {o : TenantObject} (ho : o.tenant ≠ "") (tenant : String) :
    TenantObject.byTenant.yields tenant o = true ↔ o.tenant = tenant := by
  rw [IndexFunction.yields_iff, TenantObject.byTenant, if_neg (by simpa using ho)]
  simp [eq_comm]

/-- An event either takes effect, and changes what is stored under its key, or is refused. -/
theorem Tidy.apply_cases (h : s.Tidy) (event : Event) :
    (event.isAcceptable = true ∧ ∃ t, s.apply event = .ok (event.id, t) ∧ t.Tidy ∧
      ∀ key, t.get? key = if event.id = key then event.left? else s.get? key) ∨
    (event.isAcceptable = false ∧ ∃ r, s.apply event = .error r) := by
  cases event with
  | upsert id tenant spec =>
    rcases s.add_cases id ⟨id, tenant, spec⟩ with ⟨r, hadd, hrejects⟩ | ⟨hnot, t, hadd, hitems, hfunctions⟩
    · have htenant : tenant = "" := (h.rejects_iff _).mp hrejects.rejects
      exact .inr ⟨by simp [Event.isAcceptable, htenant], r, by rw [apply, hadd]; rfl⟩
    · have htenant : tenant ≠ "" := fun heq => hnot ((h.rejects_iff _).mpr heq)
      refine .inl ⟨by simp [Event.isAcceptable, htenant], t, by rw [apply, hadd]; rfl,
        ⟨h.sound.add hadd, hfunctions.trans h.functions⟩, fun key => ?_⟩
      rw [Store.get?, hitems, Std.ExtTreeMap.getElem?_insert]
      exact if_congr Std.compare_eq_iff_eq rfl rfl
  | delete id =>
    have hafter : (s.delete id).2.items = s.items.erase id ∧ (s.delete id).2.functions = s.functions :=
      s.after_delete id
    refine .inl ⟨rfl, _, rfl, ⟨h.sound.delete id, hafter.2.trans h.functions⟩, fun key => ?_⟩
    rw [Store.get?, hafter.1, Std.ExtTreeMap.getElem?_erase]
    exact if_congr Std.compare_eq_iff_eq rfl rfl

/-- A line is taken if it describes an event that takes effect (`Event.accepted?`), and refused
otherwise. If it is taken it changes what is stored under its key, and nothing else. -/
theorem Tidy.applyLine_cases (h : s.Tidy) (line : String) :
    (∃ event t, Event.accepted? line = some event ∧ s.applyLine line = .ok (event.id, t) ∧ t.Tidy ∧
      ∀ key, t.get? key = if event.id = key then event.left? else s.get? key) ∨
    (Event.accepted? line = none ∧ ∃ e, s.applyLine line = .error e) := by
  rw [applyLine, Event.accepted?]
  cases Event.parse? line with
  | none => exact .inr ⟨rfl, _, rfl⟩
  | some event =>
    rcases h.apply_cases event with ⟨hacceptable, t, happly, ht, hget⟩ | ⟨hrefused, r, happly⟩
    · refine .inl ⟨event, t, by rw [Option.filter_some, if_pos hacceptable], ?_, ht, hget⟩
      simp only [happly, Except.mapError]
    · refine .inr ⟨by rw [Option.filter_some, hrefused]; rfl, .refused r, ?_⟩
      simp only [happly, Except.mapError]

/-! ## Stores that follow some events -/

/-- The objects are told by the last event about each key, and all that is asked of the store by the
objects: the index by tenant, and what is reported when a key is reconciled. -/
structure Follows (events : List Event) (s : TenantStore) : Prop where
  /-- under each key there is what the last event about it has left -/
  get?_eq : ∀ key, s.get? key = (Event.lastAbout? key events).bind Event.left?
  /-- each object bears its key and has a tenant -/
  owned : ∀ key o, s.get? key = some o → o.id = key ∧ o.tenant ≠ ""
  /-- under a tenant the index holds the keys of its objects, each once -/
  indexKeys : ∀ tenant, ∃ keys, s.indexKeys TenantObject.indexName tenant = .ok keys ∧ keys.Nodup ∧
    ∀ key, key ∈ keys ↔ ∃ o, s.get? key = some o ∧ o.tenant = tenant
  /-- the index holds the tenants that have objects, each once -/
  tenants : ∃ tenants, s.indexedValues TenantObject.indexName = .ok tenants ∧ tenants.Nodup ∧
    ∀ tenant, tenant ∈ tenants ↔ ∃ key o, s.get? key = some o ∧ o.tenant = tenant
  /-- reconciling fails for the objects whose specification has a field `fail` that is true, and for
  no others -/
  reconcile_fails : ∀ key, (∃ e, s.reconcile key = .error e) ↔
    ∃ o fields, s.get? key = some o ∧ o.spec = .object fields ∧ fields.lookup "fail" = some (.bool true)
  /-- it never fails for want of the index -/
  reconcile_error : ∀ key e, s.reconcile key = .error e → e = ⟨"object " ++ key ++ " requested failure"⟩

/-- An object asks for a failure exactly if its specification is an object with `true` under this
name. -/
theorem asksForFailure_iff (o : TenantObject) :
    o.asksForFailure = true ↔ ∃ fields, o.spec = .object fields ∧ fields.lookup "fail" = some (.bool true) := by
  rw [← Json.Value.get?_eq_some_iff, TenantObject.asksForFailure]
  split
  · next hget => simp [hget]
  · next hget => simpa using hget

/-- Reconciling a key fails exactly if the object under it asks for that, and with a text that names
the key. -/
theorem Tidy.reconcile_eq (h : s.Tidy) (key : Key) :
    s.reconcile key = if (s.get? key).any (·.asksForFailure)
      then .error ⟨"object " ++ key ++ " requested failure"⟩ else .ok () := by
  rw [reconcile]
  cases hget : s.get? key with
  | none => rfl
  | some o =>
    obtain ⟨keys, hkeys⟩ := h.ready.indexKeys o.tenant
    simp only [hkeys, Option.any_some]

/-- Whatever the lines say, the objects are tidy, and told by the last event about each key. -/
theorem tidy_afterLines (lines : List String) :
    (afterLines lines).Tidy ∧ ∀ key, (afterLines lines).get? key =
      (Event.lastAbout? key (lines.filterMap Event.accepted?)).bind Event.left? := by
  induction lines using List.reverseRecOn with
  | nil => exact ⟨tidy_empty, fun key => Std.ExtTreeMap.getElem?_empty⟩
  | append_singleton lines line ih =>
    obtain ⟨htidy, hget⟩ := ih
    rw [afterLines_concat, afterLine, List.filterMap_append]
    rcases htidy.applyLine_cases line with ⟨event, t, hevent, happly, ht, hget'⟩ | ⟨hevent, e, happly⟩
    · rw [happly, List.filterMap_cons_some hevent, List.filterMap_nil]
      refine ⟨ht, fun key => ?_⟩
      rw [Event.lastAbout?_concat]
      refine (hget' key).trans ?_
      split
      · rfl
      · exact hget key
    · rw [happly, List.filterMap_cons_none hevent, List.filterMap_nil, List.append_nil]
      exact ⟨htidy, hget⟩

/-- Objects that are told by events that take effect bear their keys and have tenants. -/
theorem owned_of_lastAbout? (hevents : ∀ e ∈ events, e.isAcceptable = true)
    (hget : s.get? key = (Event.lastAbout? key events).bind Event.left?) {o : TenantObject}
    (ho : s.get? key = some o) : o.id = key ∧ o.tenant ≠ "" := by
  obtain ⟨e, he, hleft⟩ := Option.bind_eq_some_iff.mp (hget.symm.trans ho)
  obtain ⟨hmem, rfl⟩ := Event.lastAbout?_mem he
  have hacceptable := hevents e hmem
  cases e with
  | upsert id tenant spec =>
    cases hleft
    exact ⟨rfl, by simpa [Event.isAcceptable] using hacceptable⟩
  | delete id => cases hleft

/-- A tidy store whose objects are told by the last events follows these events in all that can be
asked of it. -/
theorem follows_of_tidy (h : s.Tidy) (hevents : ∀ e ∈ events, e.isAcceptable = true)
    (hget : ∀ key, s.get? key = (Event.lastAbout? key events).bind Event.left?) : s.Follows events where
  get?_eq := hget
  owned key o ho := owned_of_lastAbout? hevents (hget key) ho
  indexKeys tenant := by
    obtain ⟨keys, hkeys, hnodup, hmem⟩ := h.sound.indexKeys_eq h.byTenant tenant
    refine ⟨keys, hkeys, hnodup, fun key => (hmem key).trans (exists_congr fun o => and_congr_right fun ho => ?_)⟩
    exact yields_byTenant (owned_of_lastAbout? hevents (hget key) ho).2 tenant
  tenants := by
    obtain ⟨tenants, htenants, hnodup, hmem⟩ := h.sound.indexedValues_eq h.byTenant
    refine ⟨tenants, htenants, hnodup, fun tenant => (hmem tenant).trans ?_⟩
    refine exists_congr fun key => exists_congr fun o => and_congr_right fun ho => ?_
    exact yields_byTenant (owned_of_lastAbout? hevents (hget key) ho).2 tenant
  reconcile_fails key := by
    rw [h.reconcile_eq]
    cases hkey : s.get? key with
    | none => simp
    | some o => cases ho : o.asksForFailure <;> simp [ho, ← asksForFailure_iff]
  reconcile_error key e he := by
    rw [h.reconcile_eq] at he
    split at he
    · cases he
      rfl
    · cases he

/-- **The last event of a key decides**: whatever lines are applied to an empty store, its objects,
its index by tenant and what is reported of each key follow from the last events that took effect;
and the next line is refused, and changes nothing, exactly if it describes no event or would put an
object without a tenant. -/
theorem objects_follow_last_events (lines : List String) :
    (afterLines lines).Follows (lines.filterMap Event.accepted?) ∧
    ∀ line, ((∃ e, (afterLines lines).applyLine line = .error e) ↔
        Event.parse? line = none ∨ ∃ id spec, Event.parse? line = some (.upsert id "" spec)) ∧
      (Event.accepted? line = none → afterLines (lines ++ [line]) = afterLines lines) ∧
      ∀ event, Event.accepted? line = some event →
        (afterLines lines).applyLine line = .ok (event.id, afterLines (lines ++ [line])) := by
  obtain ⟨htidy, hget⟩ := tidy_afterLines lines
  refine ⟨follows_of_tidy htidy (fun e he => ?_) hget, fun line => ?_⟩
  · obtain ⟨line, -, hline⟩ := List.mem_filterMap.mp he
    exact (Option.filter_eq_some_iff.mp hline).2
  · rw [← Event.accepted?_eq_none_iff, afterLines_concat, afterLine]
    rcases htidy.applyLine_cases line with ⟨event, t, hevent, happly, -, -⟩ | ⟨hevent, e, happly⟩
    · simp [hevent, happly]
    · simp [hevent, happly]

/-- An object moves to another tenant, one is taken away that was never there, and what is refused
leaves the object in place. -/
example : ((afterLines [(Event.upsert "a" "t" .null).text, (Event.upsert "a" "u" .null).text, (Event.delete "b").text,
    (Event.upsert "a" "" .null).text, "no event"]).get? "a").map (·.tenant) = some "u" := by
  decide +kernel

end TenantStore

end ControlLoop
