import ControlLoop.Proofs.Json.RoundTrip
import ControlLoop.Proofs.Time.Rfc3339
import ControlLoop.Record.Json

/-!
# Written records are read back

A record is read back field by field. Each of its values is read from what is written for it: a uuid
from its digits in groups, an instant from its RFC 3339 form, a duration from its two numbers, an
outcome from its status. The record as a whole is an object of JSON that keeps its meaning, so its
text is read as these values (`Fits.ofText?_text`).

What can be read from a value is asked in two steps: does the value fit into the nesting that is
allowed, so that it keeps its meaning in a text (`fits_toJson`), and what does the reader make of
its meaning (`ofTree?_toTree`).
-/

namespace ControlLoop

open Json

/-! ## Uuids -/

namespace Uuid

theorem length_hexDigits (width n : Nat) : (hexDigits width n).length = width := by
  induction width generalizing n with
  | zero => rfl
  | succ width ih => rw [hexDigits, List.length_append, ih, List.length_singleton]

/-- Digits may be written group by group, so the five groups of a uuid are the thirty-two digits of
one number. -/
theorem hexDigits_add (high low n : Nat) :
    hexDigits (high + low) n = hexDigits high (n / 16 ^ low) ++ hexDigits low n := by
  induction low generalizing n with
  | zero => simp [hexDigits]
  | succ low ih =>
    rw [← Nat.add_assoc, hexDigits, ih, hexDigits, List.append_assoc, Nat.div_div_eq_div_mul, Nat.pow_succ']

theorem hexDigit?_digitChar : ∀ d < 16, Tree.hexDigit? (Nat.digitChar d) = some d := by
  decide

theorem hexValue?_concat (cs : List Char) (c : Char) :
    hexValue? (cs ++ [c]) = (hexValue? cs).bind fun n => (Tree.hexDigit? c).map (n * 16 + ·) := by
  simp [hexValue?]

/-- Digits that hold a number are read as that number. -/
theorem hexValue?_hexDigits {width n : Nat} (h : n < 16 ^ width) : hexValue? (hexDigits width n) = some n := by
  induction width generalizing n with
  | zero =>
    rw [Nat.lt_one_iff.mp h]
    rfl
  | succ width ih =>
    have hquotient : n / 16 < 16 ^ width := by
      rw [Nat.div_lt_iff_lt_mul (by decide), ← Nat.pow_succ]
      exact h
    rw [hexDigits, hexValue?_concat, ih hquotient, hexDigit?_digitChar _ (Nat.mod_lt _ (by decide))]
    show some (n / 16 * 16 + n % 16) = some n
    rw [Nat.div_add_mod']

/-- Groups of 8, 4, 4, 4 and 12 characters are found between their hyphens. -/
theorem withoutHyphens?_groups {a b c d e : List Char} (ha : a.length = 8) (hb : b.length = 4) (hc : c.length = 4)
    (hd : d.length = 4) (he : e.length = 12) :
    withoutHyphens? (a ++ '-' :: b ++ '-' :: c ++ '-' :: d ++ '-' :: e) = some (a ++ b ++ c ++ d ++ e) := by
  simp (disch := omega) [withoutHyphens?, ha, hb, hc, hd, he, List.getElem?_append_right,
    List.getElem?_cons, List.drop_append, List.drop_of_length_le]

/-- The text of a uuid names that uuid. -/
theorem ofChars?_chars (u : Uuid) : ofChars? u.chars = some u := by
  have hdigits : digits? u.chars = some (hexDigits 32 u.value) := by
    have hgroups : hexDigits 8 (u.value / 2 ^ 96) ++ hexDigits 4 (u.value / 2 ^ 80) ++ hexDigits 4 (u.value / 2 ^ 64) ++
        hexDigits 4 (u.value / 2 ^ 48) ++ hexDigits 12 u.value = hexDigits 32 u.value := by
      have h48 : u.value / 16 ^ 12 = u.value / 2 ^ 48 := rfl
      have h64 : u.value / 2 ^ 48 / 16 ^ 4 = u.value / 2 ^ 64 := Nat.div_div_eq_div_mul ..
      have h80 : u.value / 2 ^ 64 / 16 ^ 4 = u.value / 2 ^ 80 := Nat.div_div_eq_div_mul ..
      have h96 : u.value / 2 ^ 80 / 16 ^ 4 = u.value / 2 ^ 96 := Nat.div_div_eq_div_mul ..
      rw [hexDigits_add 20 12, h48, hexDigits_add 16 4, h64, hexDigits_add 12 4, h80, hexDigits_add 8 4 (_ / _), h96]
    have hlength : u.chars.length = 36 := by simp [chars, length_hexDigits]
    rw [digits?, hlength, if_neg (by decide), if_pos rfl, ← hgroups]
    exact withoutHyphens?_groups (length_hexDigits ..) (length_hexDigits ..) (length_hexDigits ..)
      (length_hexDigits ..) (length_hexDigits ..)
  have hvalue : hexValue? (hexDigits 32 u.value) = some u.value := hexValue?_hexDigits u.value_lt
  simp [ofChars?, hdigits, hvalue, u.value_lt]

end Uuid

namespace Record

/-! ## The values of a record -/

theorem fits_ofNat (depth : Nat) {n : Nat} (h : n < 2 ^ 64) : (Value.ofNat n).Fits depth :=
  .whole depth (by omega) (by omega)

/-- A number below the bound is read as that number. A retry count has its bound from here. -/
theorem readNumber?_ofNat {bound n : Nat} (h : n < bound) : readNumber? bound (Value.ofNat n).toTree = some n := by
  have hread : readNumber? bound (.number (some (.whole (Int.ofNat n)))) = if n < bound then some n else none := rfl
  rw [Value.ofNat, Value.toTree]
  exact hread.trans (if_pos h)

theorem readUuid?_text (u : Uuid) : readUuid? (Value.string u.text).toTree = some u := by
  rw [Value.toTree, readUuid?, readString?, Option.bind_some, Uuid.text, String.toList_ofList, Uuid.ofChars?_chars]

theorem readTimestamp?_text (t : Timestamp) : readTimestamp? (Value.string t.text).toTree = some t := by
  rw [Value.toTree, readTimestamp?, readString?, Option.bind_some, Timestamp.ofText?_text]

theorem readTrigger?_name (t : Trigger) : readTrigger? (Value.string t.name).toTree = some t := by
  rw [Value.toTree, readTrigger?, Trigger.ofName?_name]

theorem fits_spanJson (d : Span) : (spanJson d).Fits 1 := by
  have hlt := d.nanos_lt
  refine .object (show ["secs", "nanos"].Nodup by decide) ?_
  simp only [List.forall_mem_cons]
  exact ⟨fits_ofNat 0 (by rw [Span.seconds]; omega), fits_ofNat 0 (by rw [Span.subsecond]; omega), nofun⟩

theorem readSpan?_object (seconds nanos : Tree) :
    readSpan? (.object [(some "secs", seconds), (some "nanos", nanos)]) =
      (readNumber? (2 ^ 64) seconds).bind fun seconds =>
        (readNumber? (2 ^ 32) nanos).bind fun nanos => Span.ofParts? seconds nanos := by
  simp [readSpan?, namedFields?, only?, valuesOf]

/-- A duration is read from its seconds and its nanoseconds; neither is beyond its bound in a
span. -/
theorem readSpan?_spanJson (d : Span) : readSpan? (spanJson d).toTree = some d := by
  have hlt := d.nanos_lt
  have hseconds : d.seconds < 2 ^ 64 := by
    rw [Span.seconds]
    omega
  have hnanos : d.subsecond < 2 ^ 32 := by
    rw [Span.subsecond]
    omega
  rw [spanJson, Value.toTree, Value.fieldTrees, Value.fieldTrees, Value.fieldTrees, readSpan?_object,
    readNumber?_ofNat hseconds, Option.bind_some, readNumber?_ofNat hnanos, Option.bind_some,
    Span.ofParts?_seconds_subsecond]

theorem fits_outcomeJson (o : Outcome) : (outcomeJson o).Fits 1 := by
  cases o with
  | success => exact .object (show ["status"].Nodup by decide) (by simp [Value.Fits.string])
  | failure error => exact .object (show ["status", "error"].Nodup by decide) (by simp [Value.Fits.string])
  | failureFinal error => exact .object (show ["status", "error"].Nodup by decide) (by simp [Value.Fits.string])

/-- An outcome is read from two fields: its status, and its error if there is one. -/
theorem readOutcome?_object {fields : List (String × Value)}
    (h : ∀ field ∈ fields, field.2.Fits (Value.maxDepth - 2)) :
    readOutcome? (Value.object fields).toTree =
      (onlyString? "status" fields).bind fun status => outcome? status (onlyString? "error" fields) := by
  rw [Value.toTree, readOutcome?, meanings?_fieldTrees h]
  rfl

theorem readOutcome?_failed (status error : String) :
    readOutcome? (Value.object [("status", .string status), ("error", .string error)]).toTree =
      outcome? status (some error) := by
  have hdistinct : (([("status", .string status), ("error", .string error)] : List (String × Value)).map (·.1)).Nodup :=
    show ["status", "error"].Nodup by decide
  rw [readOutcome?_object, onlyString?_of_mem hdistinct (.head _), onlyString?_of_mem hdistinct (.tail _ (.head _)),
    Option.bind_some]
  simp only [List.forall_mem_cons]
  exact ⟨.string .., .string .., nofun⟩

/-- Every outcome is read from its status, whatever the text of its error. -/
theorem readOutcome?_outcomeJson (o : Outcome) : readOutcome? (outcomeJson o).toTree = some o := by
  cases o with
  | success =>
    have hdistinct : (([("status", .string "success")] : List (String × Value)).map (·.1)).Nodup :=
      show ["status"].Nodup by decide
    rw [outcomeJson, readOutcome?_object, onlyString?_of_mem hdistinct (.head _)]
    · rfl
    · simp only [List.forall_mem_cons]
      exact ⟨.string .., nofun⟩
  | failure error => exact readOutcome?_failed "failure" error
  | failureFinal error => exact readOutcome?_failed "failureFinal" error

/-! ## The record -/

variable {r : Record}

theorem nodup_names (r : Record) : ((("attemptId", Value.string r.attempt.text) :: r.fieldsJson).map (·.1)).Nodup :=
  show ["attemptId", "key", "trigger", "startedAt", "duration", "outcome", "retryCount"].Nodup by decide

theorem fits_toJson (h : r.retryCount < 2 ^ 32) : r.toJson.Fits 2 := by
  refine .object (nodup_names r) ?_
  simp only [fieldsJson, List.forall_mem_cons]
  exact ⟨.string .., .string .., .string .., .string .., fits_spanJson _, fits_outcomeJson _,
    fits_ofNat 1 (by omega), nofun⟩

theorem ofValues?_toTree (h : r.retryCount < 2 ^ 32) :
    ofValues? (Value.string r.attempt.text).toTree (Value.string r.key).toTree (Value.string r.trigger.name).toTree
      (Value.string r.startedAt.text).toTree (spanJson r.duration).toTree (outcomeJson r.outcome).toTree
      (Value.ofNat r.retryCount).toTree = some r := by
  have hkey : readString? (Value.string r.key).toTree = some r.key := by rw [Value.toTree, readString?]
  rw [ofValues?, readUuid?_text, hkey, readTrigger?_name, readTimestamp?_text, readSpan?_spanJson,
    readOutcome?_outcomeJson, readNumber?_ofNat h]
  rfl

/-- The meaning of a written record is read as that record. -/
theorem ofTree?_toTree (h : r.retryCount < 2 ^ 32) : ofTree? r.toJson.toTree = some r := by
  have hattempt := only?_toTree (nodup_names r) (.head _)
  have hkey := only?_toTree (nodup_names r) (.tail _ (.head _))
  have htrigger := only?_toTree (nodup_names r) (.tail _ (.tail _ (.head _)))
  have hstartedAt := only?_toTree (nodup_names r) (.tail _ (.tail _ (.tail _ (.head _))))
  have hduration := only?_toTree (nodup_names r) (.tail _ (.tail _ (.tail _ (.tail _ (.head _)))))
  have houtcome := only?_toTree (nodup_names r) (.tail _ (.tail _ (.tail _ (.tail _ (.tail _ (.head _))))))
  have hretryCount := only?_toTree (nodup_names r) (.tail _ (.tail _ (.tail _ (.tail _ (.tail _ (.tail _ (.head _)))))))
  rw [toJson, Value.toTree, ofTree?, namedFields?_fieldTrees, Option.bind_eq_bind, Option.bind_some,
    Option.bind_eq_bind, hattempt, Option.bind_some, hkey, Option.bind_some, htrigger, Option.bind_some, hstartedAt,
    Option.bind_some, hduration, Option.bind_some, houtcome, Option.bind_some, hretryCount, Option.bind_some,
    ofValues?_toTree h]

/-- The text of a record describes that record: whatever its key and its error are, at both ends of
the time that there is, and in leap seconds too. The printer of texts keeps the meaning of a value
(`Fits.ofText?_text`), and the reader finds the record in that meaning. -/
theorem text_tells_record (r : Record) (h : r.retryCount < 2 ^ 32) : parse? r.text = some r := by
  rw [parse?, text, (fits_toJson h).ofText?_text, Option.bind_some, ofTree?_toTree h]

/-- A record with all that is hard to write: the largest uuid, quotes and control characters and one
beyond the basic plane, the last nanosecond of the first second, the longest duration and the
largest count. -/
def hardest : Record where
  attempt := ⟨2 ^ 128 - 1, by decide⟩
  key := "\"\\\x00\x1f\x7f😀"
  trigger := .auto
  startedAt := ⟨Timestamp.minSecond, 999999999, by decide, by decide, by decide⟩
  duration := Span.longest
  outcome := .failureFinal "\t\r\n\x08\x0c/\u2028\uffff"
  retryCount := 2 ^ 32 - 1

theorem text_tells_record_when_hardest : hardest.retryCount < 2 ^ 32 ∧ parse? hardest.text = some hardest := by
  have hcount : hardest.retryCount < 2 ^ 32 := by decide
  exact ⟨hcount, text_tells_record hardest hcount⟩

end Record

end ControlLoop
