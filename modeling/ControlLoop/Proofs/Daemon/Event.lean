import ControlLoop.Daemon.Event
import ControlLoop.Proofs.Json.RoundTrip

/-!
# Written events are read back

An event is read from the fields of an object, wherever its type stands among them. Fields that keep
their meaning in JSON are read as they were written (`parse?_object_text`), so an event is read
back, and a missing specification is null.
-/

namespace ControlLoop.Event

open Json

/-- An object that keeps its meaning is read as the event that its fields describe. -/
theorem parse?_object_text {fields : List (String × Value)} (hdistinct : (fields.map (·.1)).Nodup)
    (h : ∀ field ∈ fields, field.2.Fits (Value.maxDepth - 1)) :
    parse? (Value.object fields).text = ofFields? fields := by
  rw [parse?, (Value.Fits.object hdistinct h).ofText?_text, Option.bind_some, Value.toTree, ofTree?,
    meanings?_fieldTrees h, Option.bind_some]

/-- An object that is taken away is read back, whatever its key. -/
theorem parse?_delete (id : String) : parse? (delete id).text = some (delete id) := by
  have hdistinct : (([("type", .string "delete"), ("id", .string id)] : List (String × Value)).map (·.1)).Nodup :=
    show ["type", "id"].Nodup by decide
  rw [text, toJson, parse?_object_text hdistinct, ofFields?, onlyString?_of_mem hdistinct (.head _),
    onlyString?_of_mem hdistinct (.tail _ (.head _))]
  · rfl
  · simp only [List.forall_mem_cons]
    exact ⟨.string .., .string .., nofun⟩

/-- An object that is put is read back, if its specification leaves room for the event around it. -/
theorem parse?_upsert (id tenant : String) {spec : Value} (h : spec.Fits (Value.maxDepth - 1)) :
    parse? (upsert id tenant spec).text = some (upsert id tenant spec) := by
  have hdistinct : (([("type", .string "upsert"), ("id", .string id), ("tenant", .string tenant), ("spec", spec)] :
      List (String × Value)).map (·.1)).Nodup := show ["type", "id", "tenant", "spec"].Nodup by decide
  rw [text, toJson, parse?_object_text hdistinct, ofFields?, onlyString?_of_mem hdistinct (.head _),
    onlyString?_of_mem hdistinct (.tail _ (.head _)), onlyString?_of_mem hdistinct (.tail _ (.tail _ (.head _))),
    atMostOne?_of_mem hdistinct (.tail _ (.tail _ (.tail _ (.head _))))]
  · rfl
  · simp only [List.forall_mem_cons]
    exact ⟨.string .., .string .., .string .., h, nofun⟩

/-- A specification that is missing is null. -/
theorem parse?_upsert_without_spec (id tenant : String) :
    parse? (Value.object [("type", .string "upsert"), ("id", .string id), ("tenant", .string tenant)]).text =
      some (upsert id tenant .null) := by
  have hdistinct : (([("type", .string "upsert"), ("id", .string id), ("tenant", .string tenant)] :
      List (String × Value)).map (·.1)).Nodup := show ["type", "id", "tenant"].Nodup by decide
  have hmissing : "spec" ∉ ([("type", .string "upsert"), ("id", .string id), ("tenant", .string tenant)] :
      List (String × Value)).map (·.1) := show "spec" ∉ ["type", "id", "tenant"] by decide
  rw [parse?_object_text hdistinct, ofFields?, onlyString?_of_mem hdistinct (.head _),
    onlyString?_of_mem hdistinct (.tail _ (.head _)), onlyString?_of_mem hdistinct (.tail _ (.tail _ (.head _))),
    atMostOne?_of_not_mem hmissing]
  · rfl
  · simp only [List.forall_mem_cons]
    exact ⟨.string .., .string .., .string .., nofun⟩

/-- The text of an event describes that event: with any key and any tenant, and with any
specification that keeps its meaning in JSON and leaves room for the event around it. An object that
is put without a specification has null. -/
theorem text_tells_event :
    (∀ id, parse? (delete id).text = some (delete id)) ∧
      (∀ id tenant spec, spec.Fits (Value.maxDepth - 1) →
        parse? (upsert id tenant spec).text = some (upsert id tenant spec)) ∧
      ∀ id tenant,
        parse? (Value.object [("type", .string "upsert"), ("id", .string id), ("tenant", .string tenant)]).text =
          some (upsert id tenant .null) :=
  ⟨parse?_delete, fun id tenant _ hspec => parse?_upsert id tenant hspec, parse?_upsert_without_spec⟩

/-- An object inside so many arrays. -/
def nested : (depth : Nat) → Value
  | 0 => .object [("low", .number (.whole (-2 ^ 63))), ("high", .number (.whole (2 ^ 64 - 1)))]
  | depth + 1 => .array [nested depth]

theorem fits_nested (depth : Nat) : (nested depth).Fits (depth + 1) := by
  induction depth with
  | zero =>
    refine .object (by decide) ?_
    simp only [List.forall_mem_cons]
    exact ⟨.whole 0 (by decide) (by decide), .whole 0 (by decide) (by decide), nofun⟩
  | succ depth ih =>
    refine .array ?_
    simpa using ih

/-- An event that nests as deep as may be. -/
theorem text_tells_event_when_nested :
    (nested 125).Fits (Value.maxDepth - 1) ∧
      parse? (upsert "\"" "\\" (nested 125)).text = some (upsert "\"" "\\" (nested 125)) :=
  ⟨fits_nested 125, text_tells_event.2.1 _ _ _ (fits_nested 125)⟩

end ControlLoop.Event
