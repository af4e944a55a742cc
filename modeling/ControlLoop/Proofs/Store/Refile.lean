import ControlLoop.Proofs.Store.Indexed

/-!
# Filing by difference

A key that is filed anew leaves the buckets of the values that it loses and enters those of the
values that it gains; no other bucket is touched. The plain way is to take the key out of the whole
index and to enter it from scratch under each of its values (`Filing.refile`). Where the buckets
hold what is noted for the keys (`Filing.WellFormed`), as they do in every index of every store,
both ways come to the same index, however the old and the new values overlap: to take a key out is
to file it under nothing, and of two filings of a key only the later one counts
(`WellFormed.file_file`).
-/

namespace ControlLoop

namespace Filing

variable {f : Filing} {buckets : Table Names} {key k : Key} {value v : String} {values : List String}

/-- Takes a key out of the index and enters it from scratch under some values. -/
def refile (f : Filing) (key : Key) (values : List String) : Filing :=
  let purged := f.purge key
  ⟨values.foldl (enter key) purged.buckets,
    if values.isEmpty then purged.recorded else purged.recorded.insert key values⟩

/-! ## Buckets that are not touched

This is about the edits themselves, whatever is noted: only the buckets in which the old values and
the new ones differ are looked up at all. -/

theorem getElem?_enter_of_ne (h : value ≠ v) : (enter key buckets value)[v]? = buckets[v]? := by
  rw [enter, Std.ExtTreeMap.getElem?_insert, if_neg (mt Std.compare_eq_iff_eq.mp h)]

theorem getElem?_leave_of_ne (h : value ≠ v) : (leave key buckets value)[v]? = buckets[v]? := by
  cases hb : buckets[value]? with
  | none => rw [leave_of_none hb]
  | some bucket => rw [getElem?_leave hb, if_neg h]

/-- Entering a key under some values leaves the buckets of all other values as they are. -/
theorem getElem?_foldl_enter_of_not_mem (h : v ∉ values) : (values.foldl (enter key) buckets)[v]? = buckets[v]? := by
  induction values generalizing buckets with
  | nil => rfl
  | cons value values ih =>
    obtain ⟨hne, h⟩ := not_or.mp (mt List.mem_cons.mpr h)
    rw [List.foldl_cons, ih h, getElem?_enter_of_ne (Ne.symm hne)]

theorem getElem?_foldl_leave_of_not_mem (h : v ∉ values) : (values.foldl (leave key) buckets)[v]? = buckets[v]? := by
  induction values generalizing buckets with
  | nil => rfl
  | cons value values ih =>
    obtain ⟨hne, h⟩ := not_or.mp (mt List.mem_cons.mpr h)
    rw [List.foldl_cons, ih h, getElem?_leave_of_ne (Ne.symm hne)]

/-- Filing a key anew does not touch the bucket of a value that it keeps, or that it neither had nor
gets. No edit comes near it. -/
theorem bucket?_file_of_same (h : v ∈ f.valuesOf key ↔ v ∈ values) :
    (f.file key values).bucket? v = f.bucket? v := by
  have hleft : v ∉ (f.valuesOf key).filter (· ∉ values) := by simp [h]
  have hentered : v ∉ values.filter (· ∉ f.valuesOf key) := by simp [h]
  rw [bucket?, file, getElem?_foldl_enter_of_not_mem hentered, getElem?_foldl_leave_of_not_mem hleft, bucket?]

/-- A bucket goes away with its last key: when the one key in it is filed under other values. -/
theorem WellFormed.bucket?_file_eq_none_iff (h : f.WellFormed) {bucket : Names} (hb : f.bucket? v = some bucket) :
    (f.file key values).bucket? v = none ↔ (∀ k, k ∈ bucket ↔ k = key) ∧ v ∉ values := by
  have hnone : (f.file key values).bucket? v = none ↔
      ∀ k, ¬if k = key then v ∈ values else Filed f.buckets v k := by
    rw [bucket?, (tidy_file h.tidy key values).getElem?_eq_none_iff]
    exact forall_congr' fun k => not_congr h.filed_file
  simp only [hnone, mem_bucket_iff hb]
  constructor
  · intro hgone
    have hothers : ∀ k, Filed f.buckets v k → k = key := by
      intro k hk
      by_contra hne
      exact hgone k (by simpa [hne] using hk)
    have hkey : Filed f.buckets v key := by
      by_contra hkey
      have hempty : ∀ k, ¬Filed f.buckets v k := fun k hk => hkey (hothers k hk ▸ hk)
      cases hb.symm.trans (h.tidy.getElem?_eq_none_iff.mpr hempty)
    refine ⟨fun k => ⟨hothers k, fun hk => hk ▸ hkey⟩, ?_⟩
    simpa using hgone key
  · rintro ⟨honly, hv⟩ k
    by_cases hk : k = key
    · simpa [hk] using hv
    · simpa [hk] using mt (honly k).mp hk

/-! ## Both ways are one

To take a key out is to file it under nothing (`purge_eq_file`). So filing from scratch is filing
twice, and that the first of two filings leaves no trace follows from `WellFormed.eq_of_recorded`:
both ways lead to well-formed indices in which the same is noted. -/

/-- Of two filings of a key the later one counts. Both indices are well-formed, and the same is
noted in them. -/
theorem WellFormed.file_file (h : f.WellFormed) (key : Key) (earlier values : List String) :
    (f.file key earlier).file key values = f.file key values := by
  refine ((h.file key earlier).file key values).eq_of_recorded (h.file key values) fun k => ?_
  rw [recorded_file, recorded_file, recorded_file]
  split <;> rfl

/-- An index that does not know the key has nothing to leave. -/
theorem refile_eq_file (f : Filing) (key : Key) (values : List String) :
    f.refile key values = (f.purge key).file key values := by
  have hold : (f.purge key).valuesOf key = [] := by simp [valuesOf, purge]
  have hall : values.filter (· ∉ ([] : List String)) = values := List.filter_eq_self.mpr (by simp)
  have hunknown : (f.purge key).recorded.erase key = (f.purge key).recorded := by
    refine Std.ExtTreeMap.ext_getElem? fun k => ?_
    rw [purge, Std.ExtTreeMap.getElem?_erase, Std.ExtTreeMap.getElem?_erase]
    split <;> rfl
  rw [refile, file, hold, hall, hunknown]
  rfl

/-- In a well-formed index filing by difference is taking the key out and entering it from scratch:
both are `file` after the key has been filed under nothing. -/
theorem WellFormed.file_eq_refile (h : f.WellFormed) (key : Key) (values : List String) :
    f.file key values = f.refile key values := by
  rw [refile_eq_file, purge_eq_file, h.file_file]

/-- An index `g` is the index `f` but for a key, which is filed under some values. -/
structure DiffersBy (f g : Filing) (key : Key) (values : List String) : Prop where
  /-- the key is in the buckets of the values -/
  filed_self : ∀ v, Filed g.buckets v key ↔ v ∈ values
  /-- they are noted, unless there are none -/
  recorded_self : g.recorded[key]? = if values = [] then none else some values
  /-- every other key is in the buckets in which it was -/
  filed_other : ∀ k ≠ key, ∀ v, Filed g.buckets v k ↔ Filed f.buckets v k
  /-- and noted as it was -/
  recorded_other : ∀ k ≠ key, g.recorded[k]? = f.recorded[k]?
  /-- the bucket of a value that the key keeps, or neither had nor gets, has the same content -/
  bucket_same : ∀ v, (v ∈ f.valuesOf key ↔ v ∈ values) → g.bucket? v = f.bucket? v
  /-- a bucket goes away exactly if the key was the only one in it and does not stay -/
  bucket_gone : ∀ v bucket, f.bucket? v = some bucket →
    (g.bucket? v = none ↔ (∀ k, k ∈ bucket ↔ k = key) ∧ v ∉ values)
  /-- the buckets of the index hold what is noted again -/
  wellFormed : g.WellFormed

theorem WellFormed.differsBy_file (h : f.WellFormed) (key : Key) (values : List String) :
    DiffersBy f (f.file key values) key values where
  filed_self v := by rw [h.filed_file, if_pos rfl]
  recorded_self := by rw [recorded_file, if_pos rfl]
  filed_other k hk v := by rw [h.filed_file, if_neg hk]
  recorded_other k hk := by rw [recorded_file, if_neg hk]
  bucket_same _ hsame := bucket?_file_of_same hsame
  bucket_gone _ _ hb := h.bucket?_file_eq_none_iff hb
  wellFormed := h.file key values

/-- **Filing by difference is filing from scratch**: in every well-formed index a key may be filed
anew under any values by taking it out and entering it under each of them, or by touching only the
buckets that change. The index that comes of it differs from the index before by the key alone. -/
theorem filing_by_difference (f : Filing) (h : f.WellFormed) (key : Key) (values : List String) :
    f.file key values = f.refile key values ∧ DiffersBy f (f.file key values) key values :=
  ⟨h.file_eq_refile key values, h.differsBy_file key values⟩

/-- An index with two keys that share a value. -/
def shared : Filing := (Filing.empty.file "a" ["x", "y"]).file "b" ["y"]

/-- One of the two keys is filed anew: the value that was its alone has no bucket any more, the
shared one keeps its bucket, and the new one gets a bucket. -/
theorem filing_by_difference_of_shared :
    shared.WellFormed ∧ shared.buckets.keys = ["x", "y"] ∧
      shared.file "a" ["y", "z"] = shared.refile "a" ["y", "z"] ∧
      (shared.file "a" ["y", "z"]).buckets.keys = ["y", "z"] ∧
      (shared.file "a" ["y", "z"]).bucket? "y" = shared.bucket? "y" := by
  have h : shared.WellFormed := (Files.empty.wellFormed.file "a" ["x", "y"]).file "b" ["y"]
  obtain ⟨heq, hdiffers⟩ := filing_by_difference shared h "a" ["y", "z"]
  have hstays : "y" ∈ shared.valuesOf "a" ↔ "y" ∈ ["y", "z"] := by decide +kernel
  exact ⟨h, by decide +kernel, heq, by decide +kernel, hdiffers.bucket_same "y" hstays⟩

end Filing

/-! ## The indices of a store -/

/-- Whatever calls have led to a store, its indices are well-formed. -/
theorem Store.wellFormed_of_calls {α : Type} (functions : Table (IndexFunction α)) (calls : List (Call α))
    {name : String} {filing : Filing} (h : ((withFunctions functions).afterAll calls).indices[name]? = some filing) :
    filing.WellFormed := by
  have hsound := sound_of_calls functions calls
  obtain ⟨f, hf⟩ := exists_of_mem ((hsound.mem_indices name).mp (mem_of_getElem?_eq_some h))
  exact (hsound.kept name f filing hf h).files.wellFormed

end ControlLoop
