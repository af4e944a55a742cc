import ControlLoop.Daemon.Event
import ControlLoop.Proofs.Json.Fields
import ControlLoop.Proofs.Json.Spelling
import ControlLoop.Proofs.Json.Tokens

/-!
# Which objects describe events

An object describes an event by the fields that stand under four names, wherever they stand:
`Upserts` and `Deletes` are the grammar of these fields, and `SpecMeans` says what the specification
of an object is.

`parse?` works on what the fields mean and the grammar on how they are spelled; the correspondence
of the two under each name carries the grammar over (`parse?_eq_upsert`, `Upserts.exists_parse?`,
`deletes_iff`).
-/

namespace ControlLoop.Event

open Json

/-! ## The grammar

The grammar is about trees, so that it can be said how a field is written, and how often. Where a
string stands is written `.string (some s)`: a string whose escapes mean nothing is `.string none`,
and so matches none of these fields. -/

/-- The fields say that an object is put: the type, the key and the tenant stand there once, and at
most one specification. Fields under other names are allowed, and may stand there as often as they
like. -/
structure Upserts (id : Key) (tenant : String) (fields : List (Option String × Tree)) : Prop where
  type : valuesAt "type" fields = [.string (some "upsert")]
  id : valuesAt "id" fields = [.string (some id)]
  tenant : valuesAt "tenant" fields = [.string (some tenant)]
  spec : (valuesAt "spec" fields).length ≤ 1

/-- The fields say that an object is taken away: the type and the key stand there once. A tenant or
a specification may stand there as well, like any other field. -/
structure Deletes (id : Key) (fields : List (Option String × Tree)) : Prop where
  type : valuesAt "type" fields = [.string (some "delete")]
  id : valuesAt "id" fields = [.string (some id)]

/-- The specification that stands there, and null where there is none. -/
inductive SpecMeans : List Tree → Value → Prop
  | missing : SpecMeans [] .null
  | given {t v} (h : t.Means v) : SpecMeans [t] v

/-! ## Fields that have a meaning -/

section

variable {id : Key} {tenant : String} {spec : Value} {fields : List (Option String × Tree)}
  {pairs pairs' : List (String × Value)}

/-- The specification that is read is the one that stands there, or null. -/
theorem specMeans_of_atMostOne? (h : List.Forall₂ Tree.FieldMeans fields pairs)
    (hspec : atMostOne? "spec" pairs = some spec) :
    (valuesAt "spec" fields).length ≤ 1 ∧ SpecMeans (valuesAt "spec" fields) spec := by
  have hmeans := forall₂_valuesOf "spec" h
  rcases atMostOne?_eq_some_iff.mp hspec with ⟨heq, rfl⟩ | heq
  · rw [heq, List.forall₂_nil_right_iff] at hmeans
    rw [hmeans]
    exact ⟨Nat.zero_le 1, .missing⟩
  · rw [heq] at hmeans
    obtain ⟨t, _, ht, hnil, heq'⟩ := List.forall₂_cons_right_iff.mp hmeans
    rw [heq', List.forall₂_nil_right_iff.mp hnil]
    exact ⟨Nat.le_refl 1, .given ht⟩

/-- Where at most one specification stands, one is read. -/
theorem exists_atMostOne? (h : List.Forall₂ Tree.FieldMeans fields pairs)
    (hlength : (valuesAt "spec" fields).length ≤ 1) : ∃ spec, atMostOne? "spec" pairs = some spec := by
  rw [(forall₂_valuesOf "spec" h).length_eq] at hlength
  rcases Nat.le_one_iff_eq_zero_or_eq_one.mp hlength with hnone | hone
  · exact ⟨.null, atMostOne?_eq_some_iff.mpr (.inl ⟨List.length_eq_zero_iff.mp hnone, rfl⟩)⟩
  · obtain ⟨v, heq⟩ := List.length_eq_one_iff.mp hone
    exact ⟨v, atMostOne?_eq_some_iff.mpr (.inr heq)⟩

/-- An object to put is read exactly from its type, its key, its tenant, and at most one
specification. -/
theorem ofFields?_eq_upsert_iff : ofFields? pairs = some (upsert id tenant spec) ↔
    onlyString? "type" pairs = some "upsert" ∧ onlyString? "id" pairs = some id ∧
      onlyString? "tenant" pairs = some tenant ∧ atMostOne? "spec" pairs = some spec := by
  rw [ofFields?]
  simp only [Option.bind_eq_bind, Option.bind_eq_some_iff]
  constructor
  · rintro ⟨type, htype, h⟩
    split at h
    · next heq =>
      obtain ⟨_, hid, _, htenant, _, hspec, heq'⟩ := by simpa only [Option.bind_eq_some_iff] using h
      cases heq'
      exact ⟨heq ▸ htype, hid, htenant, hspec⟩
    · split at h
      · obtain ⟨_, -, heq⟩ := Option.bind_eq_some_iff.mp h
        cases heq
      · cases h
  · rintro ⟨htype, hid, htenant, hspec⟩
    refine ⟨_, htype, ?_⟩
    rw [if_pos rfl, hid, htenant, hspec]
    rfl

/-- An object to take away is read exactly from its type and its key. -/
theorem ofFields?_eq_delete_iff : ofFields? pairs = some (delete id) ↔
    onlyString? "type" pairs = some "delete" ∧ onlyString? "id" pairs = some id := by
  rw [ofFields?]
  simp only [Option.bind_eq_bind, Option.bind_eq_some_iff]
  constructor
  · rintro ⟨type, htype, h⟩
    split at h
    · obtain ⟨_, -, _, -, _, -, heq⟩ := by simpa only [Option.bind_eq_some_iff] using h
      cases heq
    · split at h
      · next heq =>
        obtain ⟨_, hid, heq'⟩ := Option.bind_eq_some_iff.mp h
        cases heq'
        exact ⟨heq ▸ htype, hid⟩
      · cases h
  · rintro ⟨htype, hid⟩
    refine ⟨_, htype, ?_⟩
    rw [if_neg (by decide), if_pos rfl, hid]
    rfl

/-- What is read from fields depends on what stands under the four names. -/
theorem ofFields?_congr (htype : (valuesOf "type" pairs').Perm (valuesOf "type" pairs))
    (hid : (valuesOf "id" pairs').Perm (valuesOf "id" pairs))
    (htenant : (valuesOf "tenant" pairs').Perm (valuesOf "tenant" pairs))
    (hspec : (valuesOf "spec" pairs').Perm (valuesOf "spec" pairs)) : ofFields? pairs' = ofFields? pairs := by
  rw [ofFields?, ofFields?, onlyString?_congr htype, onlyString?_congr hid, onlyString?_congr htenant,
    atMostOne?_congr hspec]

end

/-! ## Object texts -/

variable {text : String} {fields : List (Option String × Tree)}

/-- An object text with a meaning is read from what its fields mean. -/
theorem exists_parse?_eq (hspelled : (Tree.object fields).SpelledBy text)
    (hmeaningful : (Tree.object fields).Meaningful Value.maxDepth) :
    ∃ pairs, meanings? (Value.maxDepth - 1) fields = some pairs ∧ List.Forall₂ Tree.FieldMeans fields pairs ∧
      parse? text = ofFields? pairs := by
  obtain ⟨pairs, hpairs, hmeans⟩ := hmeaningful.exists_fieldMeans
  refine ⟨pairs, hpairs, hmeans, ?_⟩
  rw [parse?, Tree.ofText?_eq_some_iff.mpr hspelled, Option.bind_some, ofTree?]
  exact congrArg (·.bind ofFields?) hpairs

/-- If a text is read as an object to put, its fields say so. -/
theorem parse?_eq_upsert (hspelled : (Tree.object fields).SpelledBy text)
    (hmeaningful : (Tree.object fields).Meaningful Value.maxDepth) {id : Key} {tenant : String} {spec : Value}
    (h : parse? text = some (upsert id tenant spec)) :
    Upserts id tenant fields ∧ SpecMeans (valuesAt "spec" fields) spec := by
  obtain ⟨pairs, -, hmeans, heq⟩ := exists_parse?_eq hspelled hmeaningful
  rw [heq, ofFields?_eq_upsert_iff] at h
  obtain ⟨htype, hid, htenant, hspec⟩ := h
  obtain ⟨hlength, hspec⟩ := specMeans_of_atMostOne? hmeans hspec
  rw [onlyString?_iff_valuesAt hmeans] at htype hid htenant
  exact ⟨⟨htype, hid, htenant, hlength⟩, hspec⟩

/-- If the fields of a text say that an object is put, the text is read so, with the specification
that they mean. -/
theorem Upserts.exists_parse? {id : Key} {tenant : String} (h : Upserts id tenant fields)
    (hspelled : (Tree.object fields).SpelledBy text)
    (hmeaningful : (Tree.object fields).Meaningful Value.maxDepth) :
    ∃ spec, parse? text = some (upsert id tenant spec) := by
  obtain ⟨pairs, -, hmeans, heq⟩ := exists_parse?_eq hspelled hmeaningful
  obtain ⟨spec, hspec⟩ := exists_atMostOne? hmeans h.spec
  refine ⟨spec, ?_⟩
  rw [heq, ofFields?_eq_upsert_iff, onlyString?_iff_valuesAt hmeans, onlyString?_iff_valuesAt hmeans,
    onlyString?_iff_valuesAt hmeans]
  exact ⟨h.type, h.id, h.tenant, hspec⟩

/-- For an object that is taken away it is the same in both directions at once. -/
theorem deletes_iff (hspelled : (Tree.object fields).SpelledBy text)
    (hmeaningful : (Tree.object fields).Meaningful Value.maxDepth) {id : Key} :
    Deletes id fields ↔ parse? text = some (delete id) := by
  obtain ⟨pairs, -, hmeans, heq⟩ := exists_parse?_eq hspelled hmeaningful
  rw [heq, ofFields?_eq_delete_iff, onlyString?_iff_valuesAt hmeans, onlyString?_iff_valuesAt hmeans]
  constructor
  · rintro ⟨htype, hid⟩
    exact ⟨htype, hid⟩
  · rintro ⟨htype, hid⟩
    exact ⟨htype, hid⟩

/-- Everything else is refused: a text of no type that is known, without a key, or with one of its
four names twice where it counts. -/
theorem parse?_eq_none_iff (hspelled : (Tree.object fields).SpelledBy text)
    (hmeaningful : (Tree.object fields).Meaningful Value.maxDepth) :
    parse? text = none ↔ (∀ id tenant, ¬Upserts id tenant fields) ∧ ∀ id, ¬Deletes id fields := by
  constructor
  · intro hnone
    constructor
    · intro id tenant h
      obtain ⟨spec, hsome⟩ := h.exists_parse? hspelled hmeaningful
      rw [hnone] at hsome
      cases hsome
    · intro id h
      rw [deletes_iff hspelled hmeaningful, hnone] at h
      cases h
  · rintro ⟨hupserts, hdeletes⟩
    match hevent : parse? text with
    | none => rfl
    | some (upsert id tenant spec) =>
      exact absurd (parse?_eq_upsert hspelled hmeaningful hevent).1 (hupserts id tenant)
    | some (delete id) => exact absurd ((deletes_iff hspelled hmeaningful).mpr hevent) (hdeletes id)

/-- Further fields under other names, and any other order, do not change what is read. -/
theorem parse?_eq_of_perm {text' : String} {fields' extra : List (Option String × Tree)}
    (hspelled : (Tree.object fields).SpelledBy text) (hmeaningful : (Tree.object fields).Meaningful Value.maxDepth)
    (hspelled' : (Tree.object fields').SpelledBy text')
    (hmeaningful' : (Tree.object fields').Meaningful Value.maxDepth) (hperm : fields'.Perm (fields ++ extra))
    (hnew : ∀ name ∈ ["type", "id", "tenant", "spec"], some name ∉ extra.map (·.1)) : parse? text' = parse? text := by
  obtain ⟨pairs, hpairs, -, heq⟩ := exists_parse?_eq hspelled hmeaningful
  obtain ⟨pairs', hpairs', -, heq'⟩ := exists_parse?_eq hspelled' hmeaningful'
  have hvalues := fun name hname => perm_valuesOf hpairs hpairs' hperm (hnew name hname)
  rw [heq, heq']
  apply ofFields?_congr <;> exact hvalues _ (by simp)

/-- An object that is taken away has no tenant and no specification, so fields of these names are
passed over too. -/
theorem Deletes.of_perm {id : Key} {fields' extra : List (Option String × Tree)} (h : Deletes id fields)
    (hperm : fields'.Perm (fields ++ extra)) (hnew : ∀ name ∈ ["type", "id"], some name ∉ extra.map (·.1)) :
    Deletes id fields' := by
  constructor
  · have htype := perm_valuesAt hperm (hnew "type" (by simp))
    rw [h.type] at htype
    exact htype.eq_singleton
  · have hid := perm_valuesAt hperm (hnew "id" (by simp))
    rw [h.id] at hid
    exact hid.eq_singleton

/-- **Objects describe events by what stands under four names.** An object text with a meaning is
read as an object to put if and only if its fields say so, and then with the specification that
stands there; it is read as an object to take away if and only if its fields say that; everything
else is refused. Neither the order of the fields nor fields under other names matter, and where an
object is taken away, the names of what it does not have are other names. -/
theorem object_describes_event (hspelled : (Tree.object fields).SpelledBy text)
    (hmeaningful : (Tree.object fields).Meaningful Value.maxDepth) :
    (∀ id tenant, Upserts id tenant fields ↔ ∃ spec, parse? text = some (upsert id tenant spec)) ∧
      (∀ id tenant spec, parse? text = some (upsert id tenant spec) → SpecMeans (valuesAt "spec" fields) spec) ∧
      (∀ id, Deletes id fields ↔ parse? text = some (delete id)) ∧
      (parse? text = none ↔ (∀ id tenant, ¬Upserts id tenant fields) ∧ ∀ id, ¬Deletes id fields) ∧
      ∀ text' fields' extra, (Tree.object fields').SpelledBy text' →
        (Tree.object fields').Meaningful Value.maxDepth → fields'.Perm (fields ++ extra) →
        ((∀ name ∈ ["type", "id", "tenant", "spec"], some name ∉ extra.map (·.1)) → parse? text' = parse? text) ∧
          ∀ id, parse? text = some (delete id) → (∀ name ∈ ["type", "id"], some name ∉ extra.map (·.1)) →
            parse? text' = some (delete id) := by
  refine ⟨?_, ?_, ?_, ?_, ?_⟩
  · intro id tenant
    constructor
    · intro h
      exact h.exists_parse? hspelled hmeaningful
    · rintro ⟨spec, h⟩
      exact (parse?_eq_upsert hspelled hmeaningful h).1
  · intro id tenant spec h
    exact (parse?_eq_upsert hspelled hmeaningful h).2
  · intro id
    exact deletes_iff hspelled hmeaningful
  · exact parse?_eq_none_iff hspelled hmeaningful
  · intro text' fields' extra hspelled' hmeaningful' hperm
    constructor
    · intro hnew
      exact parse?_eq_of_perm hspelled hmeaningful hspelled' hmeaningful' hperm hnew
    · intro id h hnew
      exact (deletes_iff hspelled' hmeaningful').mp
        (((deletes_iff hspelled hmeaningful).mpr h).of_perm hperm hnew)

/-- Fields in an order of their own: one of them is of no event, and one name occurs twice in the
specification. -/
def scrambled : List (Option String × Tree) :=
  [(some "spec", .object [(some "a", .null), (some "a", .bool true)]), (some "x", .array [.number (some (.whole 1))]),
    (some "id", .string (some "k")), (some "type", .string (some "upsert")), (some "tenant", .string (some "t"))]

/-- A text of these fields. -/
def scrambledText : String :=
  " \x7b\"spec\":\x7b\"a\":null, \"\\u0061\":true\x7d ,\"x\":[1],\"id\":\"k\",\n" ++
    "\"type\":\"upsert\",\"tenant\":\"t\"\x7d\t"

theorem scrambled_spelledBy : (Tree.object scrambled).SpelledBy scrambledText := by
  have hspace : ∀ c ∈ [' ', '\t', '\n', '\r'], Space [c] := fun c hc => List.forall_mem_singleton.mpr hc
  have hstring : ∀ s, Tree.PaddedText (.string (some s)) (Value.quote s) := fun s =>
    (Tree.HasText.string (Tree.stringText_quote s)).padded
  have hunit : Tree.StringText (some "a") ['"', '\\', 'u', '0', '0', '6', '1', '"'] :=
    .mk (.unit (n := 0x61) rfl .nil)
  have hspec : Tree.HasText (.object [(some "a", .null), (some "a", .bool true)]) _ :=
    .object (.more (Tree.nameText_quote "a") Tree.HasText.null.padded
      (.last (.mk (hspace ' ' (by simp)) hunit space_nil) Tree.HasText.yes.padded))
  have hone : Tree.HasText (.number (some (.whole 1))) _ := .number (Numeral.hasText_ofWhole 1)
  have hfields : Tree.FieldsText scrambled _ :=
    .more (Tree.nameText_quote "spec") (.mk space_nil hspec (hspace ' ' (by simp)))
      (.more (Tree.nameText_quote "x") (Tree.HasText.array (.last hone.padded)).padded
        (.more (Tree.nameText_quote "id") (hstring "k")
          (.more (.mk (hspace '\n' (by simp)) (Tree.stringText_quote "type") space_nil) (hstring "upsert")
            (.last (Tree.nameText_quote "tenant") (hstring "t")))))
  exact (Tree.PaddedText.mk (hspace ' ' (by simp)) (.object hfields) (hspace '\t' (by simp))).spelledBy
    (by decide +kernel)

theorem scrambled_meaningful : (Tree.object scrambled).Meaningful Value.maxDepth := by
  have hspec : Tree.Meaningful 126 (.object [(some "a", .null), (some "a", .bool true)]) :=
    .object (by simp) (by simpa using ⟨.null 125, .bool 125 true⟩)
  have hitem : Tree.Meaningful 126 (.array [.number (some (.whole 1))]) :=
    .array (by simpa using .number 125 (.whole 1))
  refine .object (by simp [scrambled]) ?_
  simp only [scrambled, List.forall_mem_cons]
  exact ⟨hspec, hitem, .string .., .string .., .string .., nofun⟩

/-- The text puts an object, and its specification is what the second of two equal names has. -/
theorem object_describes_event_of_scrambled :
    (Tree.object scrambled).SpelledBy scrambledText ∧ (Tree.object scrambled).Meaningful Value.maxDepth ∧
      ∃ spec, parse? scrambledText = some (upsert "k" "t" spec) ∧ SpecMeans (valuesAt "spec" scrambled) spec := by
  obtain ⟨hupserts, hspec, -⟩ := object_describes_event scrambled_spelledBy scrambled_meaningful
  obtain ⟨spec, hspec'⟩ := (hupserts "k" "t").mp ⟨rfl, rfl, rfl, Nat.le_refl 1⟩
  exact ⟨scrambled_spelledBy, scrambled_meaningful, spec, hspec', hspec _ _ _ hspec'⟩

end ControlLoop.Event
