import ControlLoop.Proofs.Store.Filing

/-!
# Indices mirror the objects

Whatever is done to a store, each of its indices holds what its function makes of the objects that
are stored, and nothing else: a store keeps no trace of objects that were replaced or removed, of
calls that failed, or of the order in which objects and indices came. `Store.Sound` is what every
change keeps, `Filing.Mirrors` what it says of one index.

Each change has a lemma of its own (`Sound.add`, `Sound.delete`, `Sound.addFunctions`), and
`sound_of_calls` puts them together by induction over the calls. What happens to one index is said
by `Kept`, which looks at the values of all keys at once: an object that is put in or taken out
changes the values of its key only.
-/

namespace ControlLoop

theorem bind_eq_ok {ε β γ : Type} {x : Except ε β} {g : β → Except ε γ} {c : γ} :
    x >>= g = .ok c ↔ ∃ b, x = .ok b ∧ g b = .ok c := by
  cases x with
  | error e => simp [bind, Except.bind]
  | ok b => simp [bind, Except.bind]

variable {α : Type}

/-- A function gives the values of an object as they are, without those that are repeated. -/
theorem IndexFunction.valuesFor_eq_ok {index : String} {f : IndexFunction α} {key : Key} {a : α}
    {values : List String} :
    f.valuesFor index key a = .ok values ↔ ∃ all, f a = .ok all ∧ values = all.eraseDups := by
  unfold valuesFor
  cases f a with
  | error reason => simp
  | ok all => simp [eq_comm]

/-- The values of the object under a key, each where it occurs first. -/
def IndexFunction.valuesAt (f : IndexFunction α) (items : Table α) (key : Key) : List String :=
  match items[key]? with
  | none => []
  | some a =>
    match f a with
    | .ok values => values.eraseDups
    | .error _ => []

/-- An index holds what its function makes of the objects, and nothing else. This is said without
`Filing.Files`, of the names, the buckets and the noted values themselves. -/
structure Filing.Mirrors (filing : Filing) (items : Table α) (f : IndexFunction α) : Prop where
  /-- the function rejects no object that is stored -/
  accepted : ∀ (key : Key) (a : α), items[key]? = some a → ∃ values, f a = .ok values
  /-- in the bucket of a value are the keys whose object has the value -/
  mem_bucket : ∀ (value : String) (key : Key),
    (∃ bucket, filing.bucket? value = some bucket ∧ key ∈ bucket) ↔
      ∃ a values, items[key]? = some a ∧ f a = .ok values ∧ value ∈ values
  /-- no bucket is empty -/
  bucket_nonempty : ∀ (value : String) (bucket : Names), filing.bucket? value = some bucket → ∃ key, key ∈ bucket
  /-- what is noted for a key are the values of its object, each where it occurs first; nothing is
  noted for a key that is not stored, or whose object has no values -/
  recorded : ∀ (key : Key) (noted : List String), filing.recorded[key]? = some noted ↔
    noted ≠ [] ∧ ∃ a values, items[key]? = some a ∧ f a = .ok values ∧ noted = values.eraseDups

namespace Store

variable {s t : Store α} {items : Table α} {f : IndexFunction α} {filing : Filing} {key : Key} {a : α}
  {name : String}

/-! ## Tables as lists

The functions of a store are gone through in the order of their names. What is made of them one by
one is found again under the same names, and only this is used later. -/

theorem nodup_names {β : Type} (t : Table β) : (t.toList.map Prod.fst).Nodup := by
  rw [List.Nodup, List.pairwise_map]
  exact Std.ExtTreeMap.distinct_keys_toList.imp fun hne heq => hne (Std.compare_eq_iff_eq.mpr heq)

theorem mem_names {β : Type} {t : Table β} : name ∈ t.toList.map Prod.fst ↔ name ∈ t := by
  rw [Std.ExtTreeMap.map_fst_toList_eq_keys, Std.ExtTreeMap.mem_keys]

theorem exists_of_mem {β : Type} {t : Table β} (h : name ∈ t) : ∃ b, t[name]? = some b :=
  Option.isSome_iff_exists.mp (Std.ExtTreeMap.mem_iff_isSome_getElem?.mp h)

theorem mem_of_getElem?_eq_some {β : Type} {t : Table β} {b : β} (h : t[name]? = some b) : name ∈ t := by
  rw [Std.ExtTreeMap.mem_iff_isSome_getElem?, h]
  rfl

theorem distinct_of_nodup {β : Type} {entries : List (String × β)} (h : (entries.map Prod.fst).Nodup) :
    entries.Pairwise fun x y => ¬compare x.1 y.1 = .eq :=
  (List.pairwise_map.mp h).imp fun hne => mt Std.compare_eq_iff_eq.mp hne

/-- What is put into a table from another is found there, and all else is found as before. -/
theorem getElem?_insertMany_toList {β : Type} (t new : Table β) (name : String) :
    (t.insertMany new.toList)[name]? = new[name]?.or t[name]? := by
  cases hn : new[name]? with
  | none =>
    have hnone : name ∉ new := by simp [Std.ExtTreeMap.mem_iff_isSome_getElem?, hn]
    rw [Std.ExtTreeMap.getElem?_insertMany_list_of_contains_eq_false, Option.none_or]
    simpa using mt mem_names.mp hnone
  | some b =>
    exact Std.ExtTreeMap.getElem?_insertMany_list_of_mem Std.compare_self Std.ExtTreeMap.distinct_keys_toList
      (Std.ExtTreeMap.mem_toList_iff_getElem?_eq_some.mpr hn)

theorem insertMany_toList {β : Type} (t : Table β) : (∅ : Table β).insertMany t.toList = t := by
  refine Std.ExtTreeMap.ext_getElem? fun name => ?_
  rw [getElem?_insertMany_toList, Std.ExtTreeMap.getElem?_empty, Option.or_none]

/-- What is made of the entries of a list carries the same names. -/
theorem labelled_of_mapM {ε β γ : Type} {g : String → β → Except ε γ} {entries : List (String × β)}
    {results : List (String × γ)} (h : (entries.mapM fun e => (e.1, ·) <$> g e.1 e.2) = .ok results) :
    results.map Prod.fst = entries.map Prod.fst ∧
      ∀ e ∈ entries, ∃ c, (e.1, c) ∈ results ∧ g e.1 e.2 = .ok c := by
  induction entries generalizing results with
  | nil =>
    cases h
    simp
  | cons entry entries ih =>
    rw [List.mapM_cons] at h
    obtain ⟨result, hresult, h⟩ := bind_eq_ok.mp h
    obtain ⟨others, hothers, h⟩ := bind_eq_ok.mp h
    cases h
    rw [map_eq_pure_bind] at hresult
    obtain ⟨c, hc, hresult⟩ := bind_eq_ok.mp hresult
    cases hresult
    obtain ⟨hnames, hmem⟩ := ih hothers
    refine ⟨by simp [hnames], fun e he => ?_⟩
    rcases List.mem_cons.mp he with rfl | he
    · exact ⟨c, List.mem_cons_self, hc⟩
    · obtain ⟨c', hc', hg⟩ := hmem e he
      exact ⟨c', List.mem_cons_of_mem _ hc', hg⟩

/-- The values of an object in all indices are asked for one index after the other, until one
rejects the object. -/
theorem valuesIn_eq_mapM (key : Key) (a : α) (functions : List (String × IndexFunction α)) :
    valuesIn key a functions = functions.mapM fun e => (e.1, ·) <$> e.2.valuesFor e.1 key a := by
  induction functions with
  | nil => rfl
  | cons entry functions ih => simp [valuesIn, ih, List.mapM_cons]

theorem build_eq_mapM (objects : List (Key × α)) (functions : List (String × IndexFunction α)) :
    build objects functions = functions.mapM fun e => (e.1, ·) <$> fill e.1 e.2 Filing.empty objects := by
  induction functions with
  | nil => rfl
  | cons entry functions ih => simp [build, ih, List.mapM_cons]

/-! ## One index

`Kept` relates an index to the objects and to its function. Its content is a function of all keys at
once, and an object that is put in or taken out changes it at one key, as does the edit of the
index. -/

/-- The index of a function keeps up with the objects: the function gives values for each of them,
and the index files each key under those of its object. -/
structure Kept (items : Table α) (f : IndexFunction α) (filing : Filing) : Prop where
  /-- the function rejects no object that is stored -/
  accepted : ∀ (key : Key) (a : α), items[key]? = some a → ∃ values, f a = .ok values
  /-- each key is filed under the values of its object -/
  files : filing.Files (f.valuesAt items)

/-- Putting an object in changes the values of its key only. -/
theorem valuesAt_insert {all : List String} (hf : f a = .ok all) :
    f.valuesAt (items.insert key a) = Function.update (f.valuesAt items) key all.eraseDups := by
  funext k
  rw [IndexFunction.valuesAt, Std.ExtTreeMap.getElem?_insert]
  by_cases hk : k = key
  · subst hk
    simp [hf]
  · simp [Ne.symm hk, hk, IndexFunction.valuesAt]

theorem valuesAt_erase (f : IndexFunction α) (items : Table α) (key : Key) :
    f.valuesAt (items.erase key) = Function.update (f.valuesAt items) key [] := by
  funext k
  rw [IndexFunction.valuesAt, Std.ExtTreeMap.getElem?_erase]
  by_cases hk : k = key
  · subst hk
    simp
  · simp [Ne.symm hk, hk, IndexFunction.valuesAt]

/-- A key has a value exactly if an object is stored under it and the function gives the value for
the object. -/
theorem mem_valuesAt {value : String} :
    value ∈ f.valuesAt items key ↔ ∃ a values, items[key]? = some a ∧ f a = .ok values ∧ value ∈ values := by
  unfold IndexFunction.valuesAt
  cases hi : items[key]? with
  | none => simp
  | some a =>
    cases hf : f a with
    | error reason => simp [hf]
    | ok values => simp [hf]

theorem valuesAt_eq_iff {noted : List String} (hn : noted ≠ []) :
    f.valuesAt items key = noted ↔
      ∃ a values, items[key]? = some a ∧ f a = .ok values ∧ noted = values.eraseDups := by
  unfold IndexFunction.valuesAt
  cases hi : items[key]? with
  | none => simpa using hn.symm
  | some a =>
    cases hf : f a with
    | error reason => simpa [hf] using hn.symm
    | ok values => simp [hf, eq_comm]

namespace Kept

theorem empty (f : IndexFunction α) : Kept ∅ f Filing.empty where
  accepted := by simp
  files := by
    have hnone : f.valuesAt ∅ = fun _ => [] := by
      funext key
      simp [IndexFunction.valuesAt]
    rw [hnone]
    exact Filing.Files.empty

/-- An object is put under a key, and the key is filed under its values. -/
theorem file (h : Kept items f filing) {all : List String} (hf : f a = .ok all) (key : Key) :
    Kept (items.insert key a) f (filing.file key all.eraseDups) where
  accepted k b hb := by
    rw [Std.ExtTreeMap.getElem?_insert] at hb
    split at hb
    · cases hb
      exact ⟨all, hf⟩
    · exact h.accepted k b hb
  files := by
    rw [valuesAt_insert hf]
    exact h.files.file key _

/-- An object is removed, and its key is taken out of the index. -/
theorem purge (h : Kept items f filing) (key : Key) : Kept (items.erase key) f (filing.purge key) where
  accepted k b hb := by
    rw [Std.ExtTreeMap.getElem?_erase] at hb
    split at hb
    · cases hb
    · exact h.accepted k b hb
  files := by
    rw [valuesAt_erase]
    exact h.files.purge key

/-- An index that keeps up with the objects holds what its function makes of them: who is in a
bucket, which values have one, and what is noted for a key. -/
theorem mirrors (h : Kept items f filing) : filing.Mirrors items f where
  accepted := h.accepted
  mem_bucket value key := (h.files.filed value key).trans mem_valuesAt
  bucket_nonempty value bucket hb := by
    have hne := h.files.tidy value bucket hb
    by_contra hnone
    refine hne (Std.ExtTreeSet.ext_mem fun key => ?_)
    exact iff_of_false (fun hmem => hnone ⟨key, hmem⟩) Std.ExtTreeSet.not_mem_empty
  recorded key noted := by
    rw [h.files.recorded]
    constructor
    · intro hnoted
      split at hnoted
      · cases hnoted
      · next hne =>
        obtain rfl := Option.some.inj hnoted
        exact ⟨hne, (valuesAt_eq_iff hne).mp rfl⟩
    · rintro ⟨hne, hvalues⟩
      rw [(valuesAt_eq_iff hne).mpr hvalues, if_neg hne]

end Kept

/-! ## All indices -/

/-- What every store keeps. -/
structure Sound (s : Store α) : Prop where
  /-- there is an index for each function, and no other -/
  mem_indices : ∀ name, name ∈ s.indices ↔ name ∈ s.functions
  /-- each index keeps up with the objects -/
  kept : ∀ (name : String) (f : IndexFunction α) (filing : Filing),
    s.functions[name]? = some f → s.indices[name]? = some filing → Kept s.items f filing

theorem sound_withFunctions (functions : Table (IndexFunction α)) : (withFunctions functions).Sound where
  mem_indices name := by
    rw [withFunctions, Std.ExtTreeMap.mem_map]
  kept name f filing hf hfiling := by
    simp only [withFunctions, Std.ExtTreeMap.getElem?_map, Option.map_eq_some_iff] at hfiling
    obtain ⟨_, -, rfl⟩ := hfiling
    exact .empty f

/-! ### Putting an object in -/

theorem fileIn_of_not_mem {values : List (String × List String)} (indices : Table Filing)
    (h : name ∉ values.map Prod.fst) : (fileIn key indices values)[name]? = indices[name]? := by
  induction values generalizing indices with
  | nil => rfl
  | cons entry values ih =>
    obtain ⟨hne, h⟩ := not_or.mp (mt List.mem_cons.mpr h)
    refine (ih _ h).trans ?_
    rw [Std.ExtTreeMap.getElem?_modify, if_neg]
    rw [Std.compare_eq_iff_eq]
    exact fun heq => hne heq.symm

/-- An index is filed in under the values that were asked for it. -/
theorem fileIn_of_mem {values : List (String × List String)} {vs : List String} (indices : Table Filing)
    (hn : (values.map Prod.fst).Nodup) (h : (name, vs) ∈ values) :
    (fileIn key indices values)[name]? = indices[name]?.map (·.file key vs) := by
  induction values generalizing indices with
  | nil => cases h
  | cons entry values ih =>
    obtain ⟨hfresh, hn⟩ := List.nodup_cons.mp hn
    rcases List.mem_cons.mp h with rfl | h
    · refine (fileIn_of_not_mem _ hfresh).trans ?_
      rw [Std.ExtTreeMap.getElem?_modify_self]
    · refine (ih _ hn h).trans ?_
      rw [Std.ExtTreeMap.getElem?_modify, if_neg]
      rw [Std.compare_eq_iff_eq]
      intro heq
      exact hfresh (List.mem_map.mpr ⟨_, h, heq.symm⟩)

theorem mem_fileIn (indices : Table Filing) (values : List (String × List String)) :
    name ∈ fileIn key indices values ↔ name ∈ indices := by
  induction values generalizing indices with
  | nil => rfl
  | cons entry values ih => exact (ih _).trans Std.ExtTreeMap.mem_modify

/-- An object that is put in is filed in every index, under the values that its function gives. -/
theorem Sound.add (h : s.Sound) (ht : s.add key a = .ok t) : t.Sound := by
  obtain ⟨values, hvalues, ht⟩ := bind_eq_ok.mp ht
  cases ht
  rw [valuesIn_eq_mapM] at hvalues
  obtain ⟨hnames, hmem⟩ := labelled_of_mapM (g := fun name f => IndexFunction.valuesFor name f key a) hvalues
  refine ⟨fun name => (mem_fileIn _ _).trans (h.mem_indices name), fun name f filing hf hfiling => ?_⟩
  obtain ⟨vs, hvs, hfor⟩ := hmem (name, f) (Std.ExtTreeMap.mem_toList_iff_getElem?_eq_some.mpr hf)
  obtain ⟨all, hall, rfl⟩ := IndexFunction.valuesFor_eq_ok.mp hfor
  rw [fileIn_of_mem _ (hnames ▸ nodup_names _) hvs, Option.map_eq_some_iff] at hfiling
  obtain ⟨old, hold, rfl⟩ := hfiling
  exact (h.kept name f old hf hold).file hall key

theorem Sound.addAll (h : s.Sound) {objects : List (Key × α)} (ht : s.addAll objects = .ok t) : t.Sound := by
  induction objects generalizing s with
  | nil =>
    cases ht
    exact h
  | cons object objects ih =>
    obtain ⟨next, hnext, ht⟩ := bind_eq_ok.mp ht
    exact ih (h.add hnext) ht

/-! ### Taking an object out -/

/-- An object that is removed is taken out of every index. -/
theorem Sound.delete (h : s.Sound) (key : Key) : (s.delete key).2.Sound := by
  unfold Store.delete
  split
  · exact h
  · refine ⟨fun name => Std.ExtTreeMap.mem_map.trans (h.mem_indices name), fun name f filing hf hfiling => ?_⟩
    rw [Std.ExtTreeMap.getElem?_map, Option.map_eq_some_iff] at hfiling
    obtain ⟨old, hold, rfl⟩ := hfiling
    exact (h.kept name f old hf hold).purge key

/-! ### More indices -/

/-- An index that is filled with objects keeps up with them. -/
theorem Kept.fill (h : Kept items f filing) {objects : List (Key × α)} {filled : Filing}
    (hfill : fill name f filing objects = .ok filled) : Kept (items.insertMany objects) f filled := by
  induction objects generalizing items filing with
  | nil =>
    cases hfill
    rw [Std.ExtTreeMap.insertMany_nil]
    exact h
  | cons object objects ih =>
    obtain ⟨key, a⟩ := object
    obtain ⟨values, hvalues, hfill⟩ := bind_eq_ok.mp hfill
    obtain ⟨all, hall, rfl⟩ := IndexFunction.valuesFor_eq_ok.mp hvalues
    rw [Std.ExtTreeMap.insertMany_cons]
    exact ih (h.file hall key) hfill

/-- Indices that are built belong to the functions they are built for, and are filled with the
objects. -/
theorem indices_of_build {new : Table (IndexFunction α)} {objects : List (Key × α)} {filings : List (String × Filing)}
    (h : build objects new.toList = .ok filings) :
    (∀ name, name ∈ filings.map Prod.fst ↔ name ∈ new) ∧
      ∀ (name : String) (f : IndexFunction α) (others : Table Filing), new[name]? = some f →
        ∃ filing, (others.insertMany filings)[name]? = some filing ∧ fill name f Filing.empty objects = .ok filing := by
  rw [build_eq_mapM] at h
  obtain ⟨hnames, hmem⟩ := labelled_of_mapM (g := fun name f => fill name f Filing.empty objects) h
  refine ⟨fun name => by rw [hnames, mem_names], fun name f others hf => ?_⟩
  obtain ⟨filing, hfiling, hfill⟩ := hmem (name, f) (Std.ExtTreeMap.mem_toList_iff_getElem?_eq_some.mpr hf)
  have hdistinct := distinct_of_nodup (hnames ▸ nodup_names new)
  exact ⟨filing, Std.ExtTreeMap.getElem?_insertMany_list_of_mem Std.compare_self hdistinct hfiling, hfill⟩

/-- An index that is registered late is filled with what is stored; the others are left alone. -/
theorem Sound.addFunctions (h : s.Sound) {new : Table (IndexFunction α)} (ht : s.addFunctions new = .ok t) :
    t.Sound := by
  unfold Store.addFunctions at ht
  split at ht
  · cases ht
  · obtain ⟨filings, hfilings, ht⟩ := bind_eq_ok.mp ht
    cases ht
    obtain ⟨hfresh, hfilled⟩ := indices_of_build hfilings
    refine ⟨fun name => ?_, fun name f filing hf hfiling => ?_⟩
    · simp only [Std.ExtTreeMap.mem_insertMany_list, List.contains_iff_mem, hfresh, mem_names, h.mem_indices]
    · -- an index is either one of the new ones, and filled, or one of the old ones, and left alone
      by_cases hnew : name ∈ new
      · obtain ⟨g, hg⟩ := exists_of_mem hnew
        rw [getElem?_insertMany_toList, hg] at hf
        obtain rfl := Option.some.inj hf
        obtain ⟨filled, hlook, hfill⟩ := hfilled name g s.indices hg
        obtain rfl := Option.some.inj (hlook.symm.trans hfiling)
        have hkept := (Kept.empty g).fill hfill
        rwa [insertMany_toList] at hkept
      · rw [Std.ExtTreeMap.getElem?_insertMany_list_of_contains_eq_false] at hf hfiling
        · exact h.kept name f filing hf hfiling
        · simpa [hfresh] using hnew
        · simpa [mem_names] using hnew

/-! ## Runs of calls

A call that is refused leaves the store as it was, so `after` is a function, and a run of calls a
fold. What each change keeps is kept along the fold. -/

/-- A call that may change a store. `after` is what it leaves, be it refused or not. -/
inductive Call (α : Type) where
  /-- an object is put in -/
  | add (key : Key) (a : α)
  /-- an object is put in, by the other name -/
  | update (key : Key) (a : α)
  /-- an object is removed -/
  | delete (key : Key)
  /-- all objects are replaced -/
  | replace (objects : List (Key × α))
  /-- more indices are registered -/
  | addFunctions (new : Table (IndexFunction α))

/-- The store after a call; one that is refused leaves it as it was. -/
def after (s : Store α) : Call α → Store α
  | .add key a => (s.add key a).toOption.getD s
  | .update key a => (s.update key a).toOption.getD s
  | .delete key => (s.delete key).2
  | .replace objects => (s.replace objects).toOption.getD s
  | .addFunctions new => (s.addFunctions new).toOption.getD s

/-- The store after some calls, one after the other. -/
def afterAll (s : Store α) (calls : List (Call α)) : Store α := calls.foldl after s

theorem Sound.getD (h : s.Sound) {result : Except Refusal (Store α)} (ht : ∀ t, result = .ok t → t.Sound) :
    (result.toOption.getD s).Sound := by
  cases result with
  | error refusal => exact h
  | ok t => exact ht t rfl

/-- A call keeps a store sound, whether it is refused or not. -/
theorem Sound.after (h : s.Sound) (call : Call α) : (s.after call).Sound := by
  cases call with
  | add key a => exact h.getD fun t ht => h.add ht
  | update key a => exact h.getD fun t ht => h.add ht
  | delete key => exact h.delete key
  | replace objects => exact h.getD fun t ht => (sound_withFunctions _).addAll ht
  | addFunctions new => exact h.getD fun t ht => h.addFunctions ht

/-- A store is sound whatever calls have led to it, by induction over the calls. -/
theorem sound_of_calls (functions : Table (IndexFunction α)) (calls : List (Call α)) :
    (calls.foldl Store.after (withFunctions functions)).Sound := by
  have hkeep : ∀ s : Store α, s.Sound → (calls.foldl Store.after s).Sound := by
    induction calls with
    | nil => exact fun s h => h
    | cons call calls ih => exact fun s h => ih _ (h.after call)
  exact hkeep _ (sound_withFunctions functions)

/-- The indices of a store hold what its functions make of its objects. -/
structure Mirrored (s : Store α) : Prop where
  /-- there is an index for each function, and no other -/
  mem_indices : ∀ name, name ∈ s.indices ↔ name ∈ s.functions
  /-- each index holds what its function makes of the objects, and nothing else -/
  mirrors : ∀ (name : String) (f : IndexFunction α) (filing : Filing),
    s.functions[name]? = some f → s.indices[name]? = some filing → filing.Mirrors s.items f

/-- **Indices mirror the objects**: a store that begins without objects, with whatever indices,
keeps an index for each of its functions and no other, and each of them holds what its function
makes of the objects that are stored, after every sequence of calls, whether they succeed or are
refused. -/
theorem indices_mirror_objects (functions : Table (IndexFunction α)) (calls : List (Call α)) :
    (calls.foldl Store.after (withFunctions functions)).Mirrored := by
  have h := sound_of_calls functions calls
  exact ⟨h.mem_indices, fun name f filing hf hfiling => (h.kept name f filing hf hfiling).mirrors⟩

end Store

end ControlLoop
