import ControlLoop.Proofs.Store.Indexed
import Mathlib.Data.List.Basic

/-!
# Questions are answered as a scan answers them

A question about an index goes to its buckets: it looks at the keys filed under a value, and never
at the other objects. Whoever has no index has to look at every object (`Store.scan`). The two find
the same, each key once, since every index mirrors the objects whatever has been done to the store;
the buckets alone, with keys that are not stored or that are filed under values they no longer have,
would not answer so.

The proofs go bucket by bucket: `Kept.filed_iff` says that the keys in a bucket are those a scan
would pick, and `perm_keys_scan` that keys without repetition which are those of the wanted objects
are the keys of the scan, in some order. So for every question there remains to show that no key is
told twice.
-/

namespace ControlLoop

variable {α : Type}

/-- Is an object filed under a value? -/
def IndexFunction.yields (f : IndexFunction α) (value : String) (a : α) : Bool :=
  match f a with
  | .ok values => value ∈ values
  | .error _ => false

theorem IndexFunction.yields_iff {f : IndexFunction α} {value : String} {a : α} :
    f.yields value a = true ↔ ∃ values, f a = .ok values ∧ value ∈ values := by
  unfold yields
  cases f a with
  | error reason => simp
  | ok values => simp

namespace Store

variable {s : Store α} {f : IndexFunction α} {filing : Filing} {key : Key} {a : α} {name value : String}
  {wanted : α → Bool} {keys : List Key}

/-! ## Looking at every object

A scan takes the objects from the table, so it comes upon each key once. Whatever else finds the
same keys, each once, finds a permutation of them. -/

/-- The objects that are wanted, with their keys, as one finds them who looks at every object. It
uses no index. -/
def scan (s : Store α) (wanted : α → Bool) : List (Key × α) := s.items.toList.filter fun e => wanted e.2

theorem mem_scan : (key, a) ∈ s.scan wanted ↔ s.items[key]? = some a ∧ wanted a = true := by
  rw [scan, List.mem_filter, Std.ExtTreeMap.mem_toList_iff_getElem?_eq_some]

/-- A key is found exactly if its object is wanted. -/
theorem mem_keys_scan : key ∈ (s.scan wanted).map Prod.fst ↔ ∃ a, s.items[key]? = some a ∧ wanted a = true := by
  constructor
  · intro h
    obtain ⟨⟨_, a⟩, hscan, rfl⟩ := List.mem_map.mp h
    exact ⟨a, mem_scan.mp hscan⟩
  · rintro ⟨a, ha⟩
    exact List.mem_map.mpr ⟨(key, a), mem_scan.mpr ha, rfl⟩

/-- A scan comes upon each key once. -/
theorem nodup_keys_scan (s : Store α) (wanted : α → Bool) : ((s.scan wanted).map Prod.fst).Nodup :=
  (nodup_names s.items).sublist (List.filter_sublist.map Prod.fst)

theorem get?_scan (s : Store α) (wanted : α → Bool) :
    ((s.scan wanted).map Prod.fst).filterMap s.get? = (s.scan wanted).map Prod.snd := by
  rw [List.filterMap_map, ← List.filterMap_eq_map]
  refine List.filterMap_congr fun e he => ?_
  exact (mem_scan.mp he).1

/-- Keys without repetition that are those of the objects wanted are the keys found by a scan. -/
theorem perm_keys_scan (hnodup : keys.Nodup)
    (hmem : ∀ key, key ∈ keys ↔ ∃ a, s.items[key]? = some a ∧ wanted a = true) :
    keys.Perm ((s.scan wanted).map Prod.fst) := by
  refine (List.perm_ext_iff_of_nodup hnodup (nodup_keys_scan s wanted)).mpr fun key => ?_
  rw [hmem, mem_keys_scan]

/-- If a question finds the keys that a scan finds, it finds the same objects. -/
theorem perm_objects_scan (h : keys.Perm ((s.scan wanted).map Prod.fst)) :
    (keys.filterMap s.get?).Perm ((s.scan wanted).map Prod.snd) := by
  rw [← get?_scan]
  exact h.filterMap s.get?

/-! ## Looking into buckets

For each kind of question it is said here which keys are found and that none is found twice. Where
several values are asked for, a key that has two of them is in two buckets; it is told once, because
what has been seen is passed on from bucket to bucket. -/

/-- A key is in the bucket of a value exactly if its object has the value. -/
theorem Kept.filed_iff (h : Kept s.items f filing) :
    Filing.Filed filing.buckets value key ↔ ∃ a, s.items[key]? = some a ∧ f.yields value a = true := by
  rw [h.files.filed, mem_valuesAt]
  simp only [IndexFunction.yields_iff, exists_and_left]

/-- Under a name that is registered there is an index that keeps up with the objects. -/
theorem Sound.filing_of_mem (h : s.Sound) (hf : s.functions[name]? = some f) :
    ∃ filing, s.filing name = .ok filing ∧ Kept s.items f filing := by
  obtain ⟨filing, hfiling⟩ := exists_of_mem ((h.mem_indices name).mpr (mem_of_getElem?_eq_some hf))
  exact ⟨filing, by rw [Store.filing, hfiling], h.kept name f filing hf hfiling⟩

/-- A name that is not registered has no index, and a question about it is refused. -/
theorem Sound.filing_of_not_mem (h : s.Sound) (hname : name ∉ s.functions) :
    s.filing name = .error (.indexNotFound name) := by
  have hnone : s.indices[name]? = none :=
    Std.ExtTreeMap.getElem?_eq_none (mt (h.mem_indices name).mp hname)
  rw [filing, hnone]

/-- The keys in a bucket are those whose objects have its value, each once. -/
theorem Sound.indexKeys_eq (h : s.Sound) (hf : s.functions[name]? = some f) (value : String) :
    ∃ keys, s.indexKeys name value = .ok keys ∧ keys.Nodup ∧
      ∀ key, key ∈ keys ↔ ∃ a, s.items[key]? = some a ∧ f.yields value a = true := by
  obtain ⟨filing, hfiling, hkept⟩ := h.filing_of_mem hf
  refine ⟨(filing.bucket? value).elim [] (·.toList), bind_eq_ok.mpr ⟨filing, hfiling, rfl⟩, ?_, fun key => ?_⟩
  · cases filing.bucket? value with
    | none => exact List.nodup_nil
    | some bucket => exact Std.ExtTreeSet.distinct_toList.imp fun hne heq => hne (Std.compare_eq_iff_eq.mpr heq)
  · rw [← hkept.filed_iff, Filing.Filed]
    show _ ↔ ∃ bucket, filing.bucket? value = some bucket ∧ key ∈ bucket
    cases filing.bucket? value with
    | none => simp
    | some bucket => simp

/-- Walking through the buckets of several values one comes upon the keys whose objects have one of
them, each once, but for those that have been seen. The induction is on the values; a key that the
first bucket tells counts as seen from then on. -/
theorem Sound.matchingKeys_eq (h : s.Sound) (hf : s.functions[name]? = some f) (seen : Names)
    (values : List String) :
    ∃ keys, s.matchingKeys name seen values = .ok keys ∧ keys.Nodup ∧
      ∀ key, key ∈ keys ↔ key ∉ seen ∧
        ∃ a, s.items[key]? = some a ∧ values.any (f.yields · a) = true := by
  induction values generalizing seen with
  | nil => exact ⟨[], rfl, List.nodup_nil, by simp⟩
  | cons value values ih =>
    obtain ⟨bucket, hbucket, hnodup, hmem⟩ := h.indexKeys_eq hf value
    let new := bucket.filter (· ∉ seen)
    have hnew : ∀ key, key ∈ new ↔ key ∉ seen ∧ key ∈ bucket := by
      intro key
      simp [new, and_comm]
    have hseen : ∀ key, key ∈ seen.insertMany new ↔ key ∈ seen ∨ key ∈ bucket := by
      intro key
      rw [Std.ExtTreeSet.mem_insertMany_list, List.contains_iff_mem, hnew]
      by_cases hs : key ∈ seen <;> simp [hs]
    obtain ⟨others, hothers, hnodup', hmem'⟩ := ih (seen.insertMany new)
    have hwalk : s.matchingKeys name seen (value :: values) = .ok (new ++ others) :=
      bind_eq_ok.mpr ⟨bucket, hbucket, bind_eq_ok.mpr ⟨others, hothers, rfl⟩⟩
    refine ⟨new ++ others, hwalk, ?_, fun key => ?_⟩
    · refine List.nodup_append.mpr ⟨hnodup.filter _, hnodup', ?_⟩
      rintro key hk _ hk' rfl
      exact ((hmem' key).mp hk').1 ((hseen key).mpr (.inr ((hnew key).mp hk).2))
    · rw [List.mem_append, hnew, hmem', hseen]
      simp only [List.any_cons, Bool.or_eq_true, and_or_left, exists_or, ← hmem]
      by_cases hs : key ∈ seen <;> by_cases hb : key ∈ bucket <;> simp [hs, hb]

/-- The values of an index are those that an object has, each once. -/
theorem Sound.indexedValues_eq (h : s.Sound) (hf : s.functions[name]? = some f) :
    ∃ values, s.indexedValues name = .ok values ∧ values.Nodup ∧
      ∀ value, value ∈ values ↔ ∃ (key : Key) (a : α), s.items[key]? = some a ∧ f.yields value a = true := by
  obtain ⟨filing, hfiling, hkept⟩ := h.filing_of_mem hf
  refine ⟨filing.buckets.keys, bind_eq_ok.mpr ⟨filing, hfiling, rfl⟩, Std.ExtTreeMap.nodup_keys, fun value => ?_⟩
  simp only [← hkept.filed_iff, Std.ExtTreeMap.mem_keys]
  constructor
  · intro hvalue
    obtain ⟨bucket, hbucket⟩ := exists_of_mem hvalue
    obtain ⟨key, hkey⟩ := hkept.mirrors.bucket_nonempty value bucket hbucket
    exact ⟨key, bucket, hbucket, hkey⟩
  · rintro ⟨key, bucket, hbucket, -⟩
    exact mem_of_getElem?_eq_some hbucket

/-! ## Both ways find the same -/

/-- The questions about an index are answered as somebody would answer them who looks at every
object: with the same keys or objects, each once, in some order. -/
structure AnswersByScan (s : Store α) (name : String) (f : IndexFunction α) : Prop where
  /-- the keys under a value are those of the objects that have it, each once -/
  indexKeys : ∀ value, ∃ keys, s.indexKeys name value = .ok keys ∧ keys.Nodup ∧
    keys.Perm ((s.scan (f.yields value)).map Prod.fst)
  /-- the objects under a value are those that have it, once for each key -/
  byIndex : ∀ value, ∃ objects, s.byIndex name value = .ok objects ∧
    objects.Perm ((s.scan (f.yields value)).map Prod.snd)
  /-- the objects that match another one, stored or not, are those that have one of its values, once
  for each key -/
  index : ∀ a values, f a = .ok values → ∃ objects, s.index name a = .ok objects ∧
    objects.Perm ((s.scan fun b => values.any (f.yields · b)).map Prod.snd)
  /-- nothing matches an object that the function rejects -/
  index_rejected : ∀ a reason, f a = .error reason →
    s.index name a = .error (.indexFunction name unstoredKey reason)
  /-- the values of the index are those that an object has, each once -/
  indexedValues : ∃ values, s.indexedValues name = .ok values ∧ values.Nodup ∧
    ∀ value, value ∈ values ↔ ∃ (key : Key) (a : α), s.items[key]? = some a ∧ f.yields value a = true

/-- Every question about an index that is registered is answered as by a scan. -/
theorem Sound.answersByScan (h : s.Sound) (hf : s.functions[name]? = some f) : s.AnswersByScan name f where
  indexKeys value := by
    obtain ⟨keys, hkeys, hnodup, hmem⟩ := h.indexKeys_eq hf value
    exact ⟨keys, hkeys, hnodup, perm_keys_scan hnodup hmem⟩
  byIndex value := by
    obtain ⟨keys, hkeys, hnodup, hmem⟩ := h.indexKeys_eq hf value
    refine ⟨keys.filterMap s.get?, bind_eq_ok.mpr ⟨keys, hkeys, rfl⟩, ?_⟩
    exact perm_objects_scan (perm_keys_scan hnodup hmem)
  index a values ha := by
    obtain ⟨keys, hkeys, hnodup, hmem⟩ := h.matchingKeys_eq hf ∅ values
    refine ⟨keys.filterMap s.get?, ?_, ?_⟩
    · rw [index, hf]
      simp only [ha]
      exact bind_eq_ok.mpr ⟨keys, hkeys, rfl⟩
    · refine perm_objects_scan (perm_keys_scan hnodup fun key => ?_)
      rw [hmem]
      simp
  index_rejected a reason ha := by
    rw [index, hf]
    simp only [ha]
  indexedValues := h.indexedValues_eq hf

/-- A question about an index is refused for want of it exactly if no index of that name is
registered. -/
structure KnowsItsIndices (s : Store α) (name : String) : Prop where
  indexKeys : ∀ value, s.indexKeys name value = .error (.indexNotFound name) ↔ name ∉ s.functions
  byIndex : ∀ value, s.byIndex name value = .error (.indexNotFound name) ↔ name ∉ s.functions
  index : ∀ a, s.index name a = .error (.indexNotFound name) ↔ name ∉ s.functions
  indexedValues : s.indexedValues name = .error (.indexNotFound name) ↔ name ∉ s.functions

theorem not_found_iff {β : Type} {answer : Except Refusal β}
    (hsome : ∀ f, s.functions[name]? = some f → answer ≠ .error (.indexNotFound name))
    (hnone : name ∉ s.functions → answer = .error (.indexNotFound name)) :
    answer = .error (.indexNotFound name) ↔ name ∉ s.functions := by
  refine ⟨fun hanswer hname => ?_, hnone⟩
  obtain ⟨f, hf⟩ := exists_of_mem hname
  exact hsome f hf hanswer

/-- A question about an index is refused for want of it exactly if none of that name is registered:
a function that rejects the object asked about is another refusal. -/
theorem Sound.knowsItsIndices (h : s.Sound) (name : String) : s.KnowsItsIndices name where
  indexKeys value := by
    refine not_found_iff (fun f hf => ?_) fun hname => ?_
    · obtain ⟨keys, hkeys, -⟩ := (h.answersByScan hf).indexKeys value
      simp [hkeys]
    · rw [Store.indexKeys, h.filing_of_not_mem hname]
      rfl
  byIndex value := by
    refine not_found_iff (fun f hf => ?_) fun hname => ?_
    · obtain ⟨objects, hobjects, -⟩ := (h.answersByScan hf).byIndex value
      simp [hobjects]
    · rw [Store.byIndex, Store.indexKeys, h.filing_of_not_mem hname]
      rfl
  index a := by
    refine not_found_iff (fun f hf => ?_) fun hname => ?_
    · cases ha : f a with
      | error reason => simp [(h.answersByScan hf).index_rejected a reason ha]
      | ok values =>
        obtain ⟨objects, hobjects, -⟩ := (h.answersByScan hf).index a values ha
        simp [hobjects]
    · rw [Store.index, Std.ExtTreeMap.getElem?_eq_none hname]
  indexedValues := by
    refine not_found_iff (fun f hf => ?_) fun hname => ?_
    · obtain ⟨values, hvalues, -⟩ := (h.answersByScan hf).indexedValues
      simp [hvalues]
    · rw [Store.indexedValues, h.filing_of_not_mem hname]
      rfl

/-- **Indexed queries agree with a full scan**: whatever calls have led to a store, each of its
indices answers every question as a scan of all objects would, and a question is refused for want of
an index exactly if none of that name is registered. -/
theorem queries_agree_with_scan (functions : Table (IndexFunction α)) (calls : List (Call α)) (name : String) :
    (∀ f, ((withFunctions functions).afterAll calls).functions[name]? = some f →
      ((withFunctions functions).afterAll calls).AnswersByScan name f) ∧
    ((withFunctions functions).afterAll calls).KnowsItsIndices name := by
  have h : ((withFunctions functions).afterAll calls).Sound := sound_of_calls functions calls
  exact ⟨fun _ hf => h.answersByScan hf, h.knowsItsIndices name⟩

/-- Files an object that is a list of labels under them; one without labels is rejected. -/
def byLabel : IndexFunction (List String) := fun labels => if labels.isEmpty then .error "no label" else .ok labels

/-- A store of labelled objects. -/
def labelled : Store (List String) := withFunctions ((∅ : Table _).insert "label" byLabel)

/-- Objects are put in, filed anew and removed, and one is rejected. -/
def relabelling : List (Call (List String)) :=
  [.add "a" ["x", "y", "x"], .add "b" ["y"], .update "a" ["z", "y"], .delete "b", .add "c" ["x"], .add "d" []]

/-- An object that was filed anew and shares two labels with the one asked about is found, once; one
that was removed, one that shares no label and one that was rejected are not. -/
theorem queries_agree_with_scan_after_relabelling :
    ∃ objects, (labelled.afterAll relabelling).index "label" ["y", "z", "y"] = .ok objects ∧
      objects.Perm [["z", "y"]] := by
  have hanswers := (queries_agree_with_scan ((∅ : Table _).insert "label" byLabel) relabelling "label").1 byLabel rfl
  obtain ⟨objects, hobjects, hperm⟩ := hanswers.index ["y", "z", "y"] _ rfl
  have hscan : ((labelled.afterAll relabelling).scan fun b => ["y", "z", "y"].any (byLabel.yields · b)) =
      [("a", ["z", "y"])] := by decide +kernel
  refine ⟨objects, hobjects, ?_⟩
  rw [← labelled, hscan] at hperm
  exact hperm

end Store

end ControlLoop
