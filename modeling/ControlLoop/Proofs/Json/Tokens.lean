import ControlLoop.Json.Value
import ControlLoop.Proofs.Json.Reader

/-!
# Written strings and numbers are texts of the grammar

A string is spelled piece by piece, and every character is written as one piece that stands for it
alone (`Spells`): itself, a backslash with a letter, or the number of a UTF-16 unit. Only control
characters are written by their number, so that no written unit is a surrogate, and joining the
pieces gives the characters again.

A whole number is written as a numeral without fraction and exponent, whose value is the number
where 64 bits hold it.
-/

namespace ControlLoop.Json

/-! ## Strings -/

namespace Tree

variable {c letter : Char} {n : Nat}

/-- The text is one piece, which stands for the character `c` whatever comes after it. -/
def Spells (text : List Char) (c : Char) : Prop :=
  ∃ p, (∀ {pieces cs}, PiecesText pieces cs → PiecesText (p :: pieces) (text ++ cs)) ∧
    ∀ pieces, join? (p :: pieces) = (join? pieces).map (c :: ·)

theorem spells_escaped (h : escaped? letter = some c) : Spells ['\\', letter] c :=
  ⟨.char c, .escaped h, fun pieces => by rw [join?]⟩

/-- A character that is neither a quote, nor a backslash, nor a control character stands for
itself. -/
theorem spells_self (hquote : c ≠ '"') (hslash : c ≠ '\\') (h : 0x20 ≤ c.toNat) : Spells [c] c :=
  ⟨.char c, .self hquote hslash h, fun pieces => by rw [join?]⟩

theorem hexUnit?_hexPair : ∀ n < 0x20,
    hexUnit? '0' '0' (Nat.digitChar (n / 16)) (Nat.digitChar (n % 16)) = some n := by
  decide

/-- A control character is written by its number, in four digits. -/
theorem spells_unit (h : n < 0x20) : Spells ('\\' :: 'u' :: '0' :: '0' :: Value.hexPair n) (Char.ofNat n) := by
  refine ⟨.unit n, .unit (hexUnit?_hexPair n h), fun pieces => ?_⟩
  -- no surrogate, whatever comes after it
  have hhigh : ¬(0xD800 ≤ n ∧ n ≤ 0xDBFF) := by omega
  have hlow : ¬(0xDC00 ≤ n ∧ n ≤ 0xDFFF) := by omega
  have hany : ¬(0xD800 ≤ n ∧ n ≤ 0xDFFF) := by omega
  rcases pieces with _ | ⟨_ | _, _⟩ <;> simp only [join?, hhigh, hlow, hany, if_false]

/-- Every character is written as one piece that stands for it: the cases are those of
`Value.escape`. -/
theorem spells_escape (c : Char) : Spells (Value.escape c) c := by
  rw [Value.escape]
  split_ifs with hquote hslash hbackspace hfeed hline hreturn htab hcontrol
  · exact spells_escaped (congrArg some hquote.symm)
  · exact spells_escaped (congrArg some hslash.symm)
  · exact spells_escaped (congrArg some hbackspace.symm)
  · exact spells_escaped (congrArg some hfeed.symm)
  · exact spells_escaped (congrArg some hline.symm)
  · exact spells_escaped (congrArg some hreturn.symm)
  · exact spells_escaped (congrArg some htab.symm)
  · simpa using spells_unit hcontrol
  · exact spells_self hquote hslash (Nat.le_of_not_lt hcontrol)

/-- A text is written as pieces that stand for its characters. -/
theorem piecesText_written (cs : List Char) :
    ∃ pieces, PiecesText pieces (cs.flatMap Value.escape) ∧ join? pieces = some cs := by
  induction cs with
  | nil => exact ⟨[], .nil, rfl⟩
  | cons c cs ih =>
    obtain ⟨pieces, htext, hjoin⟩ := ih
    obtain ⟨p, hp, hstands⟩ := spells_escape c
    refine ⟨p :: pieces, hp htext, ?_⟩
    rw [hstands, hjoin, Option.map_some]

/-- A written string is a text of it. -/
theorem stringText_quote (s : String) : StringText (some s) (Value.quote s) := by
  obtain ⟨pieces, htext, hjoin⟩ := piecesText_written s.toList
  have hquote := StringText.mk htext
  rwa [hjoin, Option.map_some, String.ofList_toList] at hquote

theorem nameText_quote (name : String) : NameText (some name) (Value.quote name ++ [':']) := by
  simpa using NameText.mk space_nil (stringText_quote name) space_nil

end Tree

/-! ## Whole numbers -/

namespace Numeral

/-- The numeral that a whole number is written as. -/
def ofWhole : Int → Numeral
  | .ofNat n => ⟨false, Digits.plain n, none, none⟩
  | .negSucc n => ⟨true, Digits.plain (n + 1), none, none⟩

/-- Digits without a leading zero are the text of a numeral, with or without a minus sign. -/
theorem hasText_plain (negative : Bool) (n : Nat) :
    HasText ⟨negative, Digits.plain n, none, none⟩ ((if negative then ['-'] else []) ++ Digits.plain n) := by
  have hrun : Digits.Run (Digits.plain n) := ⟨Nat.toDigits_ne_nil, fun _ => Digits.isDigit_of_mem_plain⟩
  have hzero : (Digits.plain n).head? = some '0' → Digits.plain n = ['0'] := by
    intro hhead
    by_cases hn : n = 0
    · rw [hn]
      rfl
    · exact absurd hhead (Digits.head?_plain hn)
  simpa using HasText.mk hrun hzero .none .none

/-- A written whole number is a text of its numeral. -/
theorem hasText_ofWhole (n : Int) : (ofWhole n).HasText (Number.whole n).chars := by
  cases n with
  | ofNat n => exact hasText_plain false n
  | negSucc n => exact hasText_plain true (n + 1)

/-- The value of a written whole number is the number, where 64 bits hold it. -/
theorem value?_ofWhole {n : Int} (hlow : -2 ^ 63 ≤ n) (hhigh : n < 2 ^ 64) :
    (ofWhole n).value? = some (.whole n) := by
  cases n with
  | ofNat n =>
    have hfits : n < 2 ^ 64 := Int.ofNat_lt.mp hhigh
    simp [ofWhole, value?, Digits.value_plain, hfits]
  | negSucc n =>
    have hfits : n + 1 ≤ 2 ^ 63 := by omega
    simp [ofWhole, value?, Digits.value_plain, hfits]
    omega

end Numeral

end ControlLoop.Json
