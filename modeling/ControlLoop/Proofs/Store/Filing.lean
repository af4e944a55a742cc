import Mathlib.Logic.Function.Basic
import ControlLoop.Store.Indexed

/-!
# What an index files

An index is kept up to date by edits: filing a key anew touches only the buckets that change. After
every edit the buckets hold what is noted for the keys, and nothing else (`Filing.WellFormed`), so
that what is noted determines the index. `Filing.Files` says what an index holds, whatever the edits
that led to it: some values for each key, the buckets that these values make, and nothing else. A
key that is filed anew or taken out changes its own values only (`Files.file`, `Files.purge`), so
the rest of the theory never looks at an edit.

Two things are asked of the buckets alone, without what is noted: who is `Filed` in them, and that
none is empty (`Tidy`). Each edit of a bucket has one lemma about either, and a tidy table of
buckets is determined by who is filed in it (`Tidy.eq_of_filed`).
-/

namespace ControlLoop

/-- Every value is kept once, where it occurs first. -/
theorem distinct_eq (seen : Names) (values : List String) :
    distinct seen values = (values.filter (· ∉ seen)).eraseDups := by
  induction values generalizing seen with
  | nil => rfl
  | cons v vs ih =>
    rw [distinct]
    by_cases hv : v ∈ seen
    · rw [if_pos hv, ih, List.filter_cons_of_neg (by simpa using hv)]
    · rw [if_neg hv, ih, List.filter_cons_of_pos (by simpa using hv), List.eraseDups_cons, List.filter_filter]
      congr 3
      funext w
      simp only [Std.ExtTreeSet.mem_insert, Std.compare_eq_iff_eq, eq_comm (a := v), not_or, Bool.decide_and,
        decide_not, Bool.beq_eq_decide_eq]

@[simp] theorem distinct_empty (values : List String) : distinct ∅ values = values.eraseDups := by
  rw [distinct_eq]
  congr 1
  exact List.filter_eq_self.mpr (by simp)

namespace Filing

/-- Is a key in the bucket of a value? -/
def Filed (buckets : Table Names) (value : String) (key : Key) : Prop :=
  ∃ bucket, buckets[value]? = some bucket ∧ key ∈ bucket

/-- No bucket is empty. -/
def Tidy (buckets : Table Names) : Prop :=
  ∀ (value : String) (bucket : Names), buckets[value]? = some bucket → bucket ≠ ∅

variable {buckets : Table Names} {key k : Key} {value v : String} {values : List String}

/-! ## What is filed makes the buckets

Two tidy tables of buckets in which the same keys are filed under the same values are equal. Without
`Tidy` a value might have an empty bucket in the one and none in the other, and nobody could tell
them apart by who is filed. -/

/-- Being filed under a value is being in its bucket, where it has one. -/
theorem mem_bucket_iff {bucket : Names} (hb : buckets[value]? = some bucket) :
    key ∈ bucket ↔ Filed buckets value key := by
  constructor
  · intro hkey
    exact ⟨bucket, hb, hkey⟩
  · rintro ⟨bucket', hb', hkey⟩
    obtain rfl := Option.some.inj (hb.symm.trans hb')
    exact hkey

/-- In a tidy table a value has no bucket exactly if nobody is filed under it. -/
theorem Tidy.getElem?_eq_none_iff (h : Tidy buckets) : buckets[value]? = none ↔ ∀ key, ¬Filed buckets value key := by
  constructor
  · rintro hb key ⟨bucket, hbucket, -⟩
    cases hb.symm.trans hbucket
  · intro hnone
    cases hb : buckets[value]? with
    | none => rfl
    | some bucket =>
      refine absurd (Std.ExtTreeSet.ext_mem fun key => ?_) (h value bucket hb)
      exact iff_of_false (mt (mem_bucket_iff hb).mp (hnone key)) Std.ExtTreeSet.not_mem_empty

/-- Without empty buckets there is one way only to have the same keys filed under the same
values. -/
theorem Tidy.eq_of_filed {buckets' : Table Names} (h : Tidy buckets) (h' : Tidy buckets')
    (hfiled : ∀ value key, Filed buckets value key ↔ Filed buckets' value key) : buckets = buckets' := by
  refine Std.ExtTreeMap.ext_getElem? fun value => ?_
  have hnone : buckets[value]? = none ↔ buckets'[value]? = none := by
    rw [h.getElem?_eq_none_iff, h'.getElem?_eq_none_iff]
    exact forall_congr' fun key => not_congr (hfiled value key)
  cases hb : buckets[value]? with
  | none => exact (hnone.mp hb).symm
  | some bucket =>
    cases hb' : buckets'[value]? with
    | none => cases hb.symm.trans (hnone.mpr hb')
    | some bucket' =>
      refine congrArg some (Std.ExtTreeSet.ext_mem fun key => ?_)
      rw [mem_bucket_iff hb, hfiled, mem_bucket_iff hb']

/-! ## One bucket

An edit touches one bucket at a time. Each has one lemma on who is filed afterwards and one on
tidiness, so the lemmas on many edits are inductions that never look into a bucket. -/

/-- Entering a key in a bucket files it there, and moves nobody else. -/
theorem filed_enter : Filed (enter key buckets value) v k ↔ Filed buckets v k ∨ v = value ∧ k = key := by
  simp only [Filed, enter, Std.ExtTreeMap.getElem?_insert, Std.compare_eq_iff_eq]
  by_cases hv : value = v
  · subst hv
    cases hb : buckets[value]? with
    | none => simp [Std.ExtTreeSet.mem_insert, eq_comm (a := key)]
    | some bucket => simp [Std.ExtTreeSet.mem_insert, or_comm, eq_comm (a := key)]
  · simp [hv, Ne.symm hv]

/-- The bucket that a key has been entered in holds the key. -/
theorem Tidy.enter (h : Tidy buckets) (key : Key) (value : String) : Tidy (enter key buckets value) := by
  intro v bucket hb
  simp only [Filing.enter, Std.ExtTreeMap.getElem?_insert, Std.compare_eq_iff_eq] at hb
  split at hb
  · obtain rfl := Option.some.inj hb
    intro hempty
    have hmem : key ∈ (buckets[value]?.getD ∅).insert key := Std.ExtTreeSet.mem_insert_self
    rw [hempty] at hmem
    exact Std.ExtTreeSet.not_mem_empty hmem
  · exact h v bucket hb

theorem leave_of_none (hb : buckets[value]? = none) : leave key buckets value = buckets := by
  simp only [leave, hb]

theorem getElem?_leave {bucket : Names} (hb : buckets[value]? = some bucket) (v : String) :
    (leave key buckets value)[v]? =
      if value = v then if bucket.erase key = ∅ then none else some (bucket.erase key) else buckets[v]? := by
  simp only [leave, hb]
  by_cases hempty : bucket.erase key = ∅
  · rw [if_pos (Std.ExtTreeSet.isEmpty_iff.mpr hempty), if_pos hempty, Std.ExtTreeMap.getElem?_erase]
    simp only [Std.compare_eq_iff_eq]
  · rw [if_neg (mt Std.ExtTreeSet.isEmpty_iff.mp hempty), if_neg hempty, Std.ExtTreeMap.getElem?_insert]
    simp only [Std.compare_eq_iff_eq]

/-- A key that leaves a bucket is no longer filed there, and nobody else is moved. -/
theorem filed_leave : Filed (leave key buckets value) v k ↔ Filed buckets v k ∧ ¬(v = value ∧ k = key) := by
  cases hb : buckets[value]? with
  | none =>
    rw [leave_of_none hb, iff_self_and]
    rintro ⟨bucket, hbucket, -⟩ ⟨rfl, -⟩
    rw [hb] at hbucket
    cases hbucket
  | some bucket =>
    simp only [Filed, getElem?_leave hb]
    by_cases hv : value = v
    · subst hv
      have hmem : k ∈ bucket.erase key ↔ k ∈ bucket ∧ k ≠ key := by
        rw [Std.ExtTreeSet.mem_erase, ne_eq, Std.compare_eq_iff_eq, and_comm, eq_comm]
      -- the bucket is gone, or smaller by the key; nobody else was in it, or everybody else still is
      by_cases hempty : bucket.erase key = ∅
      · rw [hempty] at hmem
        simpa [hempty, hb] using hmem
      · simp [hempty, hb, hmem]
    · simp [hv, Ne.symm hv]

/-- A bucket goes away when the last key leaves it. This is the one place where an empty bucket
could stay behind. -/
theorem Tidy.leave (h : Tidy buckets) (key : Key) (value : String) : Tidy (leave key buckets value) := by
  cases hb : buckets[value]? with
  | none =>
    rw [leave_of_none hb]
    exact h
  | some bucket =>
    intro v bucket' hb'
    rw [getElem?_leave hb] at hb'
    split at hb'
    · split at hb'
      · cases hb'
      · next hne =>
        obtain rfl := Option.some.inj hb'
        exact hne
    · exact h v bucket' hb'

/-! ## Several buckets -/

theorem filed_foldl_enter :
    Filed (values.foldl (enter key) buckets) v k ↔ Filed buckets v k ∨ v ∈ values ∧ k = key := by
  induction values generalizing buckets with
  | nil => simp
  | cons value values ih =>
    rw [List.foldl_cons, ih, filed_enter, List.mem_cons, or_assoc, ← or_and_right]

theorem filed_foldl_leave :
    Filed (values.foldl (leave key) buckets) v k ↔ Filed buckets v k ∧ ¬(v ∈ values ∧ k = key) := by
  induction values generalizing buckets with
  | nil => simp
  | cons value values ih =>
    rw [List.foldl_cons, ih, filed_leave, List.mem_cons, and_assoc, ← not_or, ← or_and_right]

theorem Tidy.foldl_enter (h : Tidy buckets) (key : Key) (values : List String) :
    Tidy (values.foldl (Filing.enter key) buckets) := by
  induction values generalizing buckets with
  | nil => exact h
  | cons value values ih => exact ih (h.enter key value)

theorem Tidy.foldl_leave (h : Tidy buckets) (key : Key) (values : List String) :
    Tidy (values.foldl (Filing.leave key) buckets) := by
  induction values generalizing buckets with
  | nil => exact h
  | cons value values ih => exact ih (h.leave key value)

/-! ## The whole index

`file` leaves the buckets of the values that are lost, enters those of the values that are gained,
and then notes the values. That it comes out as if the key had been filed from scratch needs what is
noted to be true of the buckets beforehand, since the difference is taken from there. -/

/-- The buckets of an index hold what is noted for the keys, and nothing else, and none of them is
empty. An index is edited in ways that would go wrong without it: a key leaves only the buckets of
the values that are noted for it. -/
structure WellFormed (f : Filing) : Prop where
  /-- a key is in the buckets of the values noted for it -/
  filed : ∀ value key, Filed f.buckets value key ↔ value ∈ f.valuesOf key
  /-- no bucket is empty -/
  tidy : Tidy f.buckets

theorem tidy_file {f : Filing} (h : Tidy f.buckets) (key : Key) (values : List String) :
    Tidy (f.file key values).buckets :=
  (h.foldl_leave _ _).foldl_enter _ _

/-- A key that is filed anew is in the buckets of the new values and no others; the other keys stay
where they are. -/
theorem WellFormed.filed_file {f : Filing} (h : f.WellFormed) :
    Filed (f.file key values).buckets v k ↔ if k = key then v ∈ values else Filed f.buckets v k := by
  rw [file, filed_foldl_enter, filed_foldl_leave, List.mem_filter, List.mem_filter, h.filed]
  by_cases hk : k = key
  · subst hk
    by_cases hold : v ∈ f.valuesOf k <;> simp [hold]
  · simp [hk]

/-- For a key without values nothing is noted; otherwise what is noted is what it was filed under
last. -/
theorem recorded_file (f : Filing) (key : Key) (values : List String) (k : Key) :
    (f.file key values).recorded[k]? =
      if k = key then if values = [] then none else some values else f.recorded[k]? := by
  rw [file]
  by_cases hk : k = key
  · subst hk
    cases values <;> simp
  · cases values <;>
      simp [Std.ExtTreeMap.getElem?_erase, Std.ExtTreeMap.getElem?_insert, hk, Ne.symm hk]

/-- Filing keeps an index well-formed: after it the buckets hold what is noted, whatever the old and
the new values have in common. -/
theorem WellFormed.file {f : Filing} (h : f.WellFormed) (key : Key) (values : List String) :
    (f.file key values).WellFormed where
  filed v k := by
    rw [h.filed_file, valuesOf, recorded_file]
    by_cases hk : k = key
    · cases values <;> simp [hk]
    · simp [hk, h.filed, valuesOf]
  tidy := tidy_file h.tidy key values

/-- What is noted determines a well-formed index: it tells who is in the buckets, and the buckets
are tidy. -/
theorem WellFormed.eq_of_recorded {f g : Filing} (hf : f.WellFormed) (hg : g.WellFormed)
    (h : ∀ key : Key, f.recorded[key]? = g.recorded[key]?) : f = g := by
  have hrecorded : f.recorded = g.recorded := Std.ExtTreeMap.ext_getElem? fun {key} => h key
  have hbuckets : f.buckets = g.buckets := by
    refine hf.tidy.eq_of_filed hg.tidy fun value key => ?_
    rw [hf.filed, hg.filed, valuesOf, valuesOf, h]
  cases f
  cases g
  cases hbuckets
  cases hrecorded
  rfl

theorem purge_eq_file (f : Filing) (key : Key) : f.purge key = f.file key [] := by
  simp [purge, file, List.filter_eq_self.mpr]

/-- The index files each key under the values that `content` gives for it, and holds nothing else.
The content is all that the theory of stores says of an index. -/
structure Files (f : Filing) (content : Key → List String) : Prop where
  /-- a key is in the buckets of its values -/
  filed : ∀ value key, Filed f.buckets value key ↔ value ∈ content key
  /-- no bucket is empty -/
  tidy : Tidy f.buckets
  /-- its values are noted, unless there are none -/
  recorded : ∀ key, f.recorded[key]? = if content key = [] then none else some (content key)

namespace Files

variable {f : Filing} {content : Key → List String}

theorem valuesOf (h : f.Files content) (key : Key) : f.valuesOf key = content key := by
  rw [Filing.valuesOf, h.recorded]
  split
  · next hc => exact hc.symm
  · rfl

/-- An index that files each key under its values is well-formed. -/
theorem wellFormed (h : f.Files content) : f.WellFormed where
  filed v k := by rw [h.filed, h.valuesOf]
  tidy := h.tidy

theorem empty : Filing.empty.Files fun _ => [] where
  filed := by simp [Filed, Filing.empty]
  tidy := by simp [Tidy, Filing.empty]
  recorded := by simp [Filing.empty]

/-- A key that is filed anew is filed under the new values and no others; the other keys stay where
they are. -/
theorem file (h : f.Files content) (key : Key) (values : List String) :
    (f.file key values).Files (Function.update content key values) where
  filed v k := by
    rw [h.wellFormed.filed_file, h.filed, Function.update_apply]
    split <;> rfl
  tidy := tidy_file h.tidy key values
  recorded k := by
    rw [recorded_file, h.recorded, Function.update_apply]
    split <;> rfl

/-- A key that is taken out is filed nowhere. -/
theorem purge (h : f.Files content) (key : Key) : (f.purge key).Files (Function.update content key []) := by
  rw [purge_eq_file]
  exact h.file key []

end Files

end Filing

end ControlLoop
