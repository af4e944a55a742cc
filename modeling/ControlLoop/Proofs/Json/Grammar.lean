import ControlLoop.Json.Tree
import ControlLoop.Proofs.Text.Digits

/-!
# The grammar of JSON

What the texts of a tree are, said without a reader: `HasText` is the grammar of JSON values, with
space around every token, and `SpelledBy` says that a whole text is one value. A numeral keeps its
digits, a string the pieces that it is spelled with; which number and which text these stand for is
no matter of the grammar.

The reader takes exactly the texts of the grammar, and what it makes of one is the only tree with
that text (`ofText?_eq_some_iff`). Both directions follow the fuel of the reader. That a text is
read is shown for everything that may come after it (`ReadsValues`), and that what is read was a
text is shown for whatever is left (`ValuesSpelled`).
-/

namespace ControlLoop.Json

/-- Nothing but space between tokens. -/
def Space (cs : List Char) : Prop := ∀ c ∈ cs, c ∈ [' ', '\t', '\n', '\r']

theorem space_nil : Space [] := nofun

/-! ## Numerals -/

namespace Numeral

/-- The text of a fraction, which may be missing. -/
inductive FractionText : Option (List Char) → List Char → Prop
  | none : FractionText none []
  | some {ds} (h : Digits.Run ds) : FractionText (some ds) ('.' :: ds)

/-- The text of an exponent, which may be missing: its digits, and whether it is negative. -/
inductive ExponentText : Option (Bool × List Char) → List Char → Prop
  | none : ExponentText none []
  | plain {e ds} (he : e = 'e' ∨ e = 'E') (h : Digits.Run ds) : ExponentText (some (false, ds)) (e :: ds)
  | plus {e ds} (he : e = 'e' ∨ e = 'E') (h : Digits.Run ds) : ExponentText (some (false, ds)) (e :: '+' :: ds)
  | minus {e ds} (he : e = 'e' ∨ e = 'E') (h : Digits.Run ds) : ExponentText (some (true, ds)) (e :: '-' :: ds)

/-- The text of a numeral: no zero stands in front of other digits. -/
inductive HasText : Numeral → List Char → Prop
  | mk {negative ds fraction exponent cs es} (h : Digits.Run ds) (hzero : ds.head? = some '0' → ds = ['0'])
      (hfraction : FractionText fraction cs) (hexponent : ExponentText exponent es) :
    HasText ⟨negative, ds, fraction, exponent⟩ ((if negative then ['-'] else []) ++ ds ++ cs ++ es)

end Numeral

/-! ## Strings and values -/

namespace Tree

/-- The text of a string between its quotes, piece by piece. -/
inductive PiecesText : List Piece → List Char → Prop
  | nil : PiecesText [] []
  | self {c pieces cs} (hquote : c ≠ '"') (hslash : c ≠ '\\') (hcontrol : 0x20 ≤ c.toNat) (h : PiecesText pieces cs) :
    PiecesText (.char c :: pieces) (c :: cs)
  | escaped {letter c pieces cs} (hc : escaped? letter = some c) (h : PiecesText pieces cs) :
    PiecesText (.char c :: pieces) ('\\' :: letter :: cs)
  | unit {a b c d n pieces cs} (hn : hexUnit? a b c d = some n) (h : PiecesText pieces cs) :
    PiecesText (.unit n :: pieces) ('\\' :: 'u' :: a :: b :: c :: d :: cs)

/-- The text of a string, if it stands for one. -/
inductive StringText : Option String → List Char → Prop
  | mk {pieces cs} (h : PiecesText pieces cs) :
    StringText ((join? pieces).map String.ofList) ('"' :: cs ++ ['"'])

/-- The text of the name of a field, up to its value. -/
inductive NameText (name : Option String) : List Char → Prop
  | mk {before cs after} (hbefore : Space before) (h : StringText name cs) (hafter : Space after) :
    NameText name (before ++ cs ++ after ++ [':'])

mutual

/-- The text of a value. -/
inductive HasText : Tree → List Char → Prop
  | null : HasText .null ['n', 'u', 'l', 'l']
  | yes : HasText (.bool true) ['t', 'r', 'u', 'e']
  | no : HasText (.bool false) ['f', 'a', 'l', 's', 'e']
  | number {n cs} (h : Numeral.HasText n cs) : HasText (.number n.value?) cs
  | string {s cs} (h : StringText s cs) : HasText (.string s) cs
  | emptyArray {cs} (h : Space cs) : HasText (.array []) ('[' :: cs ++ [']'])
  | array {items cs} (h : ItemsText items cs) : HasText (.array items) ('[' :: cs ++ [']'])
  | emptyObject {cs} (h : Space cs) : HasText (.object []) ('\x7b' :: cs ++ ['\x7d'])
  | object {fields cs} (h : FieldsText fields cs) : HasText (.object fields) ('\x7b' :: cs ++ ['\x7d'])

/-- The text of a value with the space around it. -/
inductive PaddedText : Tree → List Char → Prop
  | mk {t before cs after} (hbefore : Space before) (h : HasText t cs) (hafter : Space after) :
    PaddedText t (before ++ cs ++ after)

/-- The text of the items of an array. -/
inductive ItemsText : List Tree → List Char → Prop
  | last {item cs} (h : PaddedText item cs) : ItemsText [item] cs
  | more {item items cs rest} (h : PaddedText item cs) (hitems : ItemsText items rest) :
    ItemsText (item :: items) (cs ++ ',' :: rest)

/-- The text of the fields of an object. -/
inductive FieldsText : List (Option String × Tree) → List Char → Prop
  | last {name value ns cs} (hname : NameText name ns) (h : PaddedText value cs) :
    FieldsText [(name, value)] (ns ++ cs)
  | more {name value fields ns cs rest} (hname : NameText name ns) (h : PaddedText value cs)
      (hfields : FieldsText fields rest) : FieldsText ((name, value) :: fields) (ns ++ cs ++ ',' :: rest)

end

/-- There need not be any space. -/
theorem HasText.padded {t : Tree} {cs : List Char} (h : HasText t cs) : PaddedText t cs := by
  simpa using PaddedText.mk space_nil h space_nil

/-- The whole text is one value. -/
def SpelledBy (t : Tree) (text : String) : Prop := PaddedText t text.toList

theorem PaddedText.spelledBy {t : Tree} {cs : List Char} {text : String} (h : PaddedText t cs)
    (htext : text.toList = cs) : t.SpelledBy text := by
  rw [SpelledBy, htext]
  exact h

end Tree

end ControlLoop.Json
