import Mathlib.Data.List.TakeWhile
import ControlLoop.Text.Blank

/-!
# Trimmed texts

Trimming takes blanks away and nothing else (`exists_eq_append_trim`), and where blanks stand around
a word without blanks, it takes all of them (`trim_append`).
-/

namespace ControlLoop.Text

/-- Nothing but blanks. -/
def Blank (cs : List Char) : Prop := ∀ c ∈ cs, isBlank c = true

variable {before word after cs : List Char} {c : Char}

theorem trimStart_append (hbefore : Blank before) (hword : ∀ c ∈ word, isBlank c = false) :
    trimStart (before ++ word) = word := by
  rw [trimStart, List.dropWhile_append_of_pos hbefore]
  cases word with
  | nil => rfl
  | cons c word => exact List.dropWhile_cons_of_neg (by simp [hword c List.mem_cons_self])

/-- Blanks around a word without blanks are all taken away. -/
theorem trim_append (hbefore : Blank before) (hword : ∀ c ∈ word, isBlank c = false) (hafter : Blank after) :
    trim (before ++ word ++ after) = word := by
  have hreverse : Blank after.reverse := fun c hc => hafter c (List.mem_reverse.mp hc)
  have hback : trimStart (word ++ after).reverse = word.reverse := by
    rw [List.reverse_append]
    exact trimStart_append hreverse fun c hc => hword c (List.mem_reverse.mp hc)
  rw [trim, List.append_assoc]
  cases word with
  | nil =>
    -- the blanks behind go with the ones in front
    have hblank : Blank (before ++ ([] ++ after)) := List.forall_mem_append.mpr ⟨hbefore, hafter⟩
    have hempty : trimStart (before ++ ([] ++ after) ++ []) = [] := trimStart_append hblank nofun
    rw [List.append_nil] at hempty
    rw [hempty]
    rfl
  | cons c word =>
    have hfront : trimStart (before ++ (c :: word ++ after)) = c :: word ++ after := by
      rw [trimStart, List.dropWhile_append_of_pos hbefore]
      exact List.dropWhile_cons_of_neg (by simp [hword c List.mem_cons_self])
    rw [hfront, hback, List.reverse_reverse]

/-- Trimming takes nothing but blanks away, and only at the ends. -/
theorem exists_eq_append_trim (cs : List Char) :
    ∃ before after, Blank before ∧ Blank after ∧ cs = before ++ trim cs ++ after := by
  have hblank : ∀ cs : List Char, Blank (cs.takeWhile isBlank) := fun cs c hc => List.mem_takeWhile_imp hc
  refine ⟨cs.takeWhile isBlank, ((trimStart cs).reverse.takeWhile isBlank).reverse, hblank cs, ?_, ?_⟩
  · intro c hc
    exact hblank _ c (List.mem_reverse.mp hc)
  · rw [List.append_assoc, trim, trimStart, ← List.reverse_append, List.takeWhile_append_dropWhile,
      List.reverse_reverse, trimStart, List.takeWhile_append_dropWhile]

/-- No letter is a blank, so lowering a text leaves its blanks. -/
theorem toLower_of_isBlank (h : isBlank c = true) : c.toLower = c := by
  apply dif_neg
  rintro ⟨hlow, hhigh⟩
  have hrange : 65 ≤ c.toNat ∧ c.toNat ≤ 90 := ⟨hlow, hhigh⟩
  simp only [isBlank, Bool.or_eq_true, Bool.and_eq_true, beq_iff_eq, decide_eq_true_eq] at h
  omega

end ControlLoop.Text
