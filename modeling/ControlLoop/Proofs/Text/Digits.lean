import Mathlib.Data.List.TakeDrop
import Mathlib.Data.List.TakeWhile
import ControlLoop.Text.Blank
import ControlLoop.Text.Digits

/-!
# Digits in a text

Digits that stand in front of something else are found again, whole: the longest run of digits ends
where they end, as long as what follows is no digit (`Over`). A number written plainly has no
leading zero unless it is zero, and no digit is a blank.
-/

namespace ControlLoop.Digits

/-- The text is at its end, or goes on with something that is no digit. -/
def Over (cs : List Char) : Prop := ∀ c ∈ cs.head?, c.isDigit = false

/-- At least one digit, and nothing else. -/
def Run (cs : List Char) : Prop := cs ≠ [] ∧ ∀ c ∈ cs, c.isDigit = true

variable {c : Char} {cs ds : List Char} {n : Nat}

theorem over_cons : Over (c :: cs) ↔ c.isDigit = false := by simp [Over]

/-! ## Written digits -/

theorem isDigit_of_mem_plain (h : c ∈ plain n) : c.isDigit = true :=
  Nat.isDigit_of_mem_toDigits (by decide) (by decide) h

theorem plain_eq_cons (n : Nat) : ∃ d ds, plain n = d :: ds ∧ d.isDigit = true := by
  obtain ⟨d, ds, hds⟩ := List.exists_cons_of_ne_nil (Nat.toDigits_ne_nil : plain n ≠ [])
  exact ⟨d, ds, hds, isDigit_of_mem_plain (hds ▸ List.mem_cons_self)⟩

theorem isDigit_of_mem_fixed {width : Nat} (h : c ∈ fixed width n) : c.isDigit = true := by
  induction width generalizing n with
  | zero => cases h
  | succ width ih =>
    rcases List.mem_append.mp h with h | h
    · exact ih h
    · rw [List.mem_singleton.mp h, Nat.isDigit_digitChar]
      exact decide_eq_true (Nat.mod_lt _ (by decide))

theorem isDigit_of_mem_padded {width : Nat} (h : c ∈ padded width n) : c.isDigit = true := by
  rw [padded] at h
  split at h
  · exact isDigit_of_mem_fixed h
  · exact isDigit_of_mem_plain h

theorem value_padded (width n : Nat) : value (padded width n) = n := by
  rw [padded]
  split
  · next h => exact value_fixed h
  · exact value_plain n

/-- Only zero starts with a zero. -/
theorem head?_plain (h : n ≠ 0) : (plain n).head? ≠ some '0' := by
  induction n using Nat.strongRecOn with
  | ind n ih =>
    rw [plain, Nat.toDigits_eq_if (by decide)]
    split
    · rw [List.head?_cons, ne_eq, Option.some.injEq, Nat.digitChar_eq_zero]
      exact h
    · next hlarge =>
      have hhead := ih (n / 10) (by omega) (by omega)
      obtain ⟨d, ds, hds, -⟩ := plain_eq_cons (n / 10)
      rw [plain] at hds hhead
      rw [hds] at hhead ⊢
      exact hhead

/-! ## Found again -/

/-- The longest run of digits ends where the digits end. -/
theorem span_append (hds : ∀ c ∈ ds, c.isDigit = true) (hcs : Over cs) : span (ds ++ cs) = (ds, cs) := by
  have htake : cs.takeWhile Char.isDigit = [] := by
    cases cs with
    | nil => rfl
    | cons c cs => exact List.takeWhile_cons_of_neg (by simp [over_cons.mp hcs])
  have hdrop : cs.dropWhile Char.isDigit = cs := by
    cases cs with
    | nil => rfl
    | cons c cs => exact List.dropWhile_cons_of_neg (by simp [over_cons.mp hcs])
  rw [span, List.span_eq_takeWhile_dropWhile, List.takeWhile_append_of_pos hds, List.dropWhile_append_of_pos hds, htake,
    hdrop, List.append_nil]

/-! ## Digits among other characters -/

theorem ne_of_isDigit {d : Char} (h : c.isDigit = true) (hd : d.isDigit = false) : c ≠ d := by
  rintro rfl
  rw [h] at hd
  cases hd

theorem isBlank_of_isDigit (h : c.isDigit = true) : Text.isBlank c = false := by
  have hrange : 48 ≤ c.toNat ∧ c.toNat ≤ 57 := Char.isDigit_iff_toNat.mp h
  simp only [Text.isBlank, Bool.or_eq_false_iff, Bool.and_eq_false_iff, beq_eq_false_iff_ne, decide_eq_false_iff_not]
  omega

end ControlLoop.Digits
