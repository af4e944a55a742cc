import ControlLoop.Proofs.Json.Grammar

/-!
# Texts of the grammar are read

Whatever the grammar of JSON calls a text is read, and as what it is a text of (`reads`): numerals,
strings, values, items and fields, each in front of anything that could not belong to it. Space
makes no difference in front of a token. That the reader has fuel enough is settled once for all of
them, as it takes two units for each character.

Each reader of a token has a lemma of the same form: the text of the token, with anything after it
that it could not swallow, is read as the token, and the rest is left. Values, items and fields call
one another, so the three statements `ReadsValues`, `ReadsItems` and `ReadsFields` are proved
together, by induction on the fuel.
-/

namespace ControlLoop.Json

/-! ## Numerals

A numeral has no end mark: it ends where the text can not go on with it, which is what `Over` says.
Behind a fraction or an exponent less could go on than behind the digits, but one condition does for
all. -/

namespace Numeral

variable {c : Char} {cs ds es rest : List Char} {n : Numeral} {negative : Bool}
  {fraction : Option (List Char)} {exponent : Option (Bool × List Char)}

/-- The text does not go on with what could belong to a numeral. -/
def Over (cs : List Char) : Prop := ∀ c ∈ cs.head?, c.isDigit = false ∧ c ≠ '.' ∧ c ≠ 'e' ∧ c ≠ 'E'

theorem over_nil : Over [] := nofun

theorem over_cons : Over (c :: cs) ↔ c.isDigit = false ∧ c ≠ '.' ∧ c ≠ 'e' ∧ c ≠ 'E' := by simp [Over]

/-- Where no exponent can follow none is read. -/
theorem readExponent_of_over (h : Over rest) : readExponent rest = some (none, rest) := by
  cases rest with
  | nil => rfl
  | cons c cs =>
    obtain ⟨-, -, hsmall, hlarge⟩ := over_cons.mp h
    simp [readExponent, hsmall, hlarge]

theorem readExponentDigits_append (h : Digits.Run ds) (hover : Digits.Over rest) (negative : Bool) :
    readExponentDigits negative (ds ++ rest) = some (some (negative, ds), rest) := by
  rw [readExponentDigits, Digits.span_append h.2 hover]
  split
  · next heq => exact absurd (congrArg Prod.fst heq) h.1
  · next heq => rw [← (Prod.mk.inj heq).1, ← (Prod.mk.inj heq).2]

theorem Over.digits (h : Over rest) : Digits.Over rest := fun c hc => (h c hc).1

/-- An exponent is read, with its sign. -/
theorem readExponent_append (h : ExponentText exponent es) (hover : Over rest) :
    readExponent (es ++ rest) = some (exponent, rest) := by
  cases h with
  | none => exact readExponent_of_over hover
  | plus he hds =>
    rcases he with rfl | rfl <;> exact readExponentDigits_append hds hover.digits false
  | minus he hds =>
    rcases he with rfl | rfl <;> exact readExponentDigits_append hds hover.digits true
  | @plain e ds he hds =>
    -- the first digit is no sign
    have hread := readExponentDigits_append hds hover.digits false
    obtain ⟨d, ds, rfl⟩ := List.exists_cons_of_ne_nil hds.1
    have hd := hds.2 d List.mem_cons_self
    have hminus : d ≠ '-' := Digits.ne_of_isDigit hd rfl
    have hplus : d ≠ '+' := Digits.ne_of_isDigit hd rfl
    rcases he with rfl | rfl <;> simpa [readExponent, hminus, hplus] using hread

theorem ExponentText.digitsOver (h : ExponentText exponent es) (hover : Over rest) : Digits.Over (es ++ rest) := by
  cases h with
  | none => exact hover.digits
  | plain he | plus he | minus he => rcases he with rfl | rfl <;> exact Digits.over_cons.mpr rfl

/-- A fraction is read, whether an exponent follows or not. -/
theorem readFraction_append (h : FractionText fraction cs) (hexponent : ExponentText exponent es) (hover : Over rest) :
    readFraction (cs ++ (es ++ rest)) = some (fraction, es ++ rest) := by
  cases h with
  | none =>
    -- what follows begins with no point
    cases hexponent with
    | none =>
      cases rest with
      | nil => rfl
      | cons c rest =>
        obtain ⟨-, hpoint, -, -⟩ := over_cons.mp hover
        simp [readFraction, hpoint]
    | plain he | plus he | minus he => rcases he with rfl | rfl <;> rfl
  | some hds =>
    simp only [List.cons_append, readFraction, Digits.span_append hds.2 (hexponent.digitsOver hover)]
    split
    · next heq => exact absurd (congrArg Prod.fst heq) hds.1
    · next heq => rw [← (Prod.mk.inj heq).1, ← (Prod.mk.inj heq).2]

theorem FractionText.digitsOver (h : FractionText fraction cs) (hexponent : ExponentText exponent es)
    (hover : Over rest) : Digits.Over (cs ++ (es ++ rest)) := by
  cases h with
  | none => exact hexponent.digitsOver hover
  | some => exact Digits.over_cons.mpr rfl

/-- The digits of a numeral are read, if none of them is a zero in front of others. -/
theorem readWhole_append (h : Digits.Run ds) (hzero : ds.head? = some '0' → ds = ['0']) (hover : Digits.Over rest) :
    readWhole (ds ++ rest) = some (ds, rest) := by
  rw [readWhole, Digits.span_append h.2 hover]
  split
  · next heq => exact absurd (congrArg Prod.fst heq) h.1
  · next d ds' rest' heq =>
    -- a leading zero with digits after it
    obtain ⟨rfl, -⟩ := Prod.mk.inj heq
    have hone := hzero rfl
    cases hone
  · next heq => rw [← (Prod.mk.inj heq).1, ← (Prod.mk.inj heq).2]

/-- The text of a numeral is read, whatever comes after it that could not belong to it. -/
theorem HasText.read_append (h : n.HasText cs) (hover : Over rest) : read (cs ++ rest) = some (n, rest) := by
  obtain @⟨negative, ds, fraction, exponent, cs, es, hds, hzero, hfraction, hexponent⟩ := h
  have hwhole := readWhole_append hds hzero (hfraction.digitsOver hexponent hover)
  have hpoint := readFraction_append hfraction hexponent hover
  have hlast := readExponent_append hexponent hover
  cases negative with
  | true => simp [read, hwhole, hpoint, hlast]
  | false =>
    -- the first digit is no minus sign
    obtain ⟨d, ds, rfl⟩ := List.exists_cons_of_ne_nil hds.1
    have hminus : d ≠ '-' := Digits.ne_of_isDigit (hds.2 d List.mem_cons_self) rfl
    simp only [List.cons_append] at hwhole
    simp [read, hminus, hwhole, hpoint, hlast]

/-- A numeral begins with a digit or a minus sign. -/
theorem HasText.exists_head (h : n.HasText cs) :
    ∃ c rest, cs = c :: rest ∧ ∀ d : Char, d.isDigit = false → d ≠ '-' → c ≠ d := by
  obtain @⟨negative, ds, _, _, _, _, hds, -⟩ := h
  cases negative with
  | true => exact ⟨'-', _, rfl, fun _ _ hminus => hminus.symm⟩
  | false =>
    obtain ⟨d, ds, rfl⟩ := List.exists_cons_of_ne_nil hds.1
    exact ⟨d, _, rfl, fun _ he _ => Digits.ne_of_isDigit (hds.2 d List.mem_cons_self) he⟩

end Numeral

/-! ## Space -/

namespace Tree

variable {c : Char} {cs ds rest rest' : List Char} {fuel : Nat} {t value : Tree} {items : List Tree}
  {s name : Option String} {fields : List (Option String × Tree)} {pieces : List Piece}

theorem isSpace_iff : isSpace c = true ↔ c ∈ [' ', '\t', '\n', '\r'] := by
  simp [isSpace, or_assoc]

theorem skip_cons (h : isSpace c = false) : skip (c :: cs) = c :: cs :=
  List.dropWhile_cons_of_neg (by simp [h])

theorem skip_append (h : Space ds) : skip (ds ++ cs) = skip cs :=
  List.dropWhile_append_of_pos fun c hc => isSpace_iff.mpr (h c hc)

theorem skip_eq_nil_iff : skip cs = [] ↔ Space cs := by
  simp only [skip, List.dropWhile_eq_nil_iff, isSpace_iff, Space]

/-- What is skipped is space. -/
theorem exists_space (cs : List Char) : ∃ before, Space before ∧ cs = before ++ skip cs := by
  refine ⟨cs.takeWhile isSpace, fun c hc => isSpace_iff.mp (List.mem_takeWhile_imp hc), ?_⟩
  exact List.takeWhile_append_dropWhile.symm

theorem skip_skip (cs : List Char) : skip (skip cs) = skip cs := by
  obtain ⟨before, hbefore, hcs⟩ := exists_space cs
  have hskip : skip (before ++ skip cs) = skip (skip cs) := skip_append hbefore
  rwa [← hcs, eq_comm] at hskip

/-- Space in front of a value makes no difference. -/
theorem readValue_skip (fuel : Nat) (cs : List Char) : readValue fuel (skip cs) = readValue fuel cs := by
  cases fuel with
  | zero => rfl
  | succ fuel => rw [readValue, readValue, skip_skip]

theorem readItems_skip (fuel : Nat) (cs : List Char) : readItems fuel (skip cs) = readItems fuel cs := by
  cases fuel with
  | zero => rfl
  | succ fuel => rw [readItems, readItems, readValue_skip]

theorem readFields_skip (fuel : Nat) (cs : List Char) : readFields fuel (skip cs) = readFields fuel cs := by
  cases fuel with
  | zero => rfl
  | succ fuel => rw [readFields, readFields, skip_skip]

/-! ## Strings -/

/-- The pieces of a string are read one by one, up to the quote that ends it. -/
theorem PiecesText.readPieces_append (h : PiecesText pieces cs) (rest : List Char) :
    readPieces (cs ++ '"' :: rest) = some (pieces, rest) := by
  induction h with
  | nil => rfl
  | self _ hslash hcontrol _ ih => simp [readPieces, hslash, Nat.not_lt.mpr hcontrol, ih]
  | @escaped letter c pieces cs hc _ ih =>
    have hletter : letter ≠ 'u' := by
      rintro rfl
      cases hc
    simp [readPieces, hc, hletter, ih]
  | unit hn _ ih => simp [readPieces, hn, ih]

/-- A string is read from its text, and what follows its last quote is left. -/
theorem StringText.readString_append (h : StringText s cs) (rest : List Char) :
    ∃ ds, cs = '"' :: ds ∧ readString (ds ++ rest) = some (s, rest) := by
  obtain @⟨pieces, cs, hpieces⟩ := h
  refine ⟨cs ++ ['"'], rfl, ?_⟩
  rw [readString, List.append_assoc, List.singleton_append, hpieces.readPieces_append, Option.map_some]

/-! ## Texts are read

From an array to its items the fuel goes down by one, and from there to the first item by one more,
while only the bracket has been read. So two units are needed for each character. -/

/-- The text goes on with neither space nor what ends an array, and belongs to no numeral before
it. -/
def Begins (cs : List Char) : Prop := ∃ c rest, cs = c :: rest ∧ isSpace c = false ∧ c ≠ ']'

theorem Begins.append (h : Begins cs) : Begins (cs ++ rest) := by
  obtain ⟨c, cs, rfl, hspace, hne⟩ := h
  exact ⟨c, cs ++ rest, rfl, hspace, hne⟩

theorem Begins.skip (h : Begins cs) : skip cs = cs := by
  obtain ⟨c, cs, rfl, hspace, -⟩ := h
  exact skip_cons hspace

/-- The text of a value begins with something that is neither space nor the end of an array. -/
theorem HasText.begins (h : HasText t cs) : Begins cs := by
  cases h with
  | number h =>
    obtain ⟨c, rest, rfl, hne⟩ := h.exists_head
    exact ⟨c, rest, rfl, by simp [isSpace, hne], hne _ rfl (by decide)⟩
  | string h =>
    obtain ⟨h⟩ := h
    exact ⟨_, _, rfl, rfl, by decide⟩
  | _ => exact ⟨_, _, rfl, rfl, by decide⟩

/-- Texts of values are read with so much fuel. -/
def ReadsValues (fuel : Nat) : Prop :=
  ∀ t cs rest, HasText t cs → 2 * cs.length ≤ fuel → Numeral.Over rest → readValue fuel (cs ++ rest) = some (t, rest)

/-- Texts of items are read with so much fuel. -/
def ReadsItems (fuel : Nat) : Prop :=
  ∀ items cs rest, ItemsText items cs → 2 * cs.length < fuel → readItems fuel (cs ++ ']' :: rest) = some (items, rest)

/-- Texts of fields are read with so much fuel. -/
def ReadsFields (fuel : Nat) : Prop :=
  ∀ fields cs rest, FieldsText fields cs → 2 * cs.length < fuel →
    readFields fuel (cs ++ '\x7d' :: rest) = some (fields, rest)

/-- A numeral does not go on behind space. -/
theorem over_append (h : Space ds) (hover : Numeral.Over rest) : Numeral.Over (ds ++ rest) := by
  cases ds with
  | nil => exact hover
  | cons c ds =>
    have hc := h c List.mem_cons_self
    simp only [List.mem_cons, List.not_mem_nil, or_false] at hc
    rcases hc with rfl | rfl | rfl | rfl <;> exact Numeral.over_cons.mpr (by decide)

/-- A value with space around it is read, and what is left of the space is skipped by whoever reads
on. -/
theorem PaddedText.read (h : PaddedText t cs) (rest : List Char) (hread : ReadsValues fuel)
    (hfuel : 2 * cs.length ≤ fuel) (hover : Numeral.Over rest) :
    ∃ rest', readValue fuel (cs ++ rest) = some (t, rest') ∧ skip rest' = skip rest := by
  obtain @⟨t, before, cs, after, hbefore, h, hafter⟩ := h
  simp only [List.length_append] at hfuel
  refine ⟨after ++ rest, ?_, skip_append hafter⟩
  rw [List.append_assoc, List.append_assoc, ← readValue_skip, skip_append hbefore, readValue_skip]
  exact hread t cs _ h (by omega) (over_append hafter hover)

/-- One more unit of fuel reads one more item: a value, and after a comma the rest. -/
theorem ReadsItems.succ (hvalue : ReadsValues fuel) (hitems : ReadsItems fuel) : ReadsItems (fuel + 1) := by
  intro items cs rest h hfuel
  cases h with
  | last h =>
    obtain ⟨rest', hread, hskip⟩ := h.read (']' :: rest) hvalue (by omega) (Numeral.over_cons.mpr (by decide))
    rw [skip_cons (c := ']') rfl] at hskip
    simp only [readItems, hread, hskip]
  | @more item items cs later h hmore =>
    simp only [List.length_append, List.length_cons] at hfuel
    obtain ⟨rest', hread, hskip⟩ :=
      h.read (',' :: (later ++ ']' :: rest)) hvalue (by omega) (Numeral.over_cons.mpr (by decide))
    rw [skip_cons (c := ',') rfl] at hskip
    have hlater := hitems items later rest hmore (by omega)
    simp only [List.append_assoc, List.cons_append, readItems, hread, hskip, hlater, Option.map_some]

/-- The name of a field is read up to its value. -/
theorem NameText.read (h : NameText name cs) (rest : List Char) :
    ∃ ds rest', skip (cs ++ rest) = '"' :: ds ∧ readString ds = some (name, rest') ∧ skip rest' = ':' :: rest := by
  obtain @⟨before, cs, after, hbefore, h, hafter⟩ := h
  obtain ⟨ds, rfl, hread⟩ := h.readString_append (after ++ ':' :: rest)
  refine ⟨_, _, ?_, hread, ?_⟩
  · simp only [List.append_assoc, skip_append hbefore, List.cons_append, List.nil_append]
    exact skip_cons rfl
  · rw [skip_append hafter, skip_cons rfl]

/-- One more unit of fuel reads one more field: its name, its value, and after a comma the rest. -/
theorem ReadsFields.succ (hvalue : ReadsValues fuel) (hfields : ReadsFields fuel) : ReadsFields (fuel + 1) := by
  intro fields cs rest h hfuel
  cases h with
  | @last name value ns cs hname h =>
    simp only [List.length_append] at hfuel
    obtain ⟨ds, rest₁, hquote, hstring, hcolon⟩ := hname.read (cs ++ '\x7d' :: rest)
    obtain ⟨rest₂, hread, hskip⟩ :=
      h.read ('\x7d' :: rest) hvalue (by omega) (Numeral.over_cons.mpr (by decide))
    rw [skip_cons (c := '\x7d') rfl] at hskip
    simp only [List.append_assoc, readFields, hquote, hstring, hcolon, hread, hskip]
  | @more name value fields ns cs later hname h hmore =>
    simp only [List.length_append, List.length_cons] at hfuel
    obtain ⟨ds, rest₁, hquote, hstring, hcolon⟩ := hname.read (cs ++ ',' :: (later ++ '\x7d' :: rest))
    obtain ⟨rest₂, hread, hskip⟩ :=
      h.read (',' :: (later ++ '\x7d' :: rest)) hvalue (by omega) (Numeral.over_cons.mpr (by decide))
    rw [skip_cons (c := ',') rfl] at hskip
    have hlater := hfields fields later rest hmore (by omega)
    simp only [List.append_assoc, List.cons_append, readFields, hquote, hstring, hcolon, hread, hskip, hlater,
      Option.map_some]

theorem ItemsText.begins (h : ItemsText items cs) :
    ∃ before rest, Space before ∧ cs = before ++ rest ∧ Begins rest := by
  have hpadded : ∀ {t : Tree} {cs : List Char} (later : List Char), PaddedText t cs →
      ∃ before rest, Space before ∧ cs ++ later = before ++ rest ∧ Begins rest := by
    rintro t cs later @⟨t, before, cs, after, hbefore, h, -⟩
    exact ⟨before, cs ++ (after ++ later), hbefore, by simp, h.begins.append⟩
  cases h with
  | last h => simpa using hpadded [] h
  | more h => exact hpadded _ h

theorem readValue_array (h : ItemsText items cs) (hread : readItems fuel (cs ++ ']' :: rest) = some (items, rest)) :
    readValue (fuel + 1) ('[' :: cs ++ [']'] ++ rest) = some (.array items, rest) := by
  obtain ⟨before, later, hbefore, rfl, hbegins⟩ := h.begins
  rw [← readItems_skip, List.append_assoc, skip_append hbefore] at hread
  obtain ⟨c, later, rfl, hspace, hne⟩ := hbegins
  simp only [List.cons_append, List.append_assoc, List.nil_append, readValue, skip_cons (c := '[') rfl,
    skip_append hbefore, skip_cons hspace] at hread ⊢
  split
  · next heq => exact absurd (List.cons.inj heq).1 hne
  · rw [hread, Option.map_some]

theorem readValue_object (h : FieldsText fields cs)
    (hread : readFields fuel (cs ++ '\x7d' :: rest) = some (fields, rest)) :
    readValue (fuel + 1) ('\x7b' :: cs ++ ['\x7d'] ++ rest) = some (.object fields, rest) := by
  obtain ⟨ds, hquote⟩ : ∃ ds, skip (cs ++ '\x7d' :: rest) = '"' :: ds := by
    cases h with
    | last hname | more hname =>
      obtain ⟨ds, -, hquote, -⟩ := hname.read _
      exact ⟨ds, by simpa using hquote⟩
  rw [← readFields_skip, hquote] at hread
  simp only [List.cons_append, List.append_assoc, List.nil_append, readValue, skip_cons (c := '\x7b') rfl, hquote]
  split
  · next heq => exact absurd (List.cons.inj heq).1 (by decide)
  · rw [hread, Option.map_some]

/-- What begins like none of the others is a numeral. -/
theorem readValue_number {n : Numeral} (h : n.HasText cs) (hover : Numeral.Over rest) :
    readValue (fuel + 1) (cs ++ rest) = some (.number n.value?, rest) := by
  have hread := h.read_append hover
  have hspace : skip (cs ++ rest) = cs ++ rest := (HasText.number h).begins.append.skip
  obtain ⟨c, cs, rfl, hne⟩ := h.exists_head
  -- no other value begins like a number
  obtain ⟨hquote, harray, hobject, hnull, htrue, hfalse⟩ :
      c ≠ '"' ∧ c ≠ '[' ∧ c ≠ '\x7b' ∧ c ≠ 'n' ∧ c ≠ 't' ∧ c ≠ 'f' := by simp [hne]
  rw [List.cons_append] at hread hspace ⊢
  simp [readValue, hspace, hquote, harray, hobject, hnull, htrue, hfalse, readNumber, hread]

/-- A value is a word, a string, a numeral, or an array or object whose items or fields are read
with less fuel. -/
theorem ReadsValues.succ (hitems : ReadsItems fuel) (hfields : ReadsFields fuel) : ReadsValues (fuel + 1) := by
  intro t cs rest h hfuel hover
  cases h with
  | null | yes | no => rfl
  | number h => exact readValue_number h hover
  | string h =>
    obtain ⟨ds, rfl, hread⟩ := h.readString_append rest
    simp only [List.cons_append, readValue, skip_cons (c := '"') rfl, hread, Option.map_some]
  | emptyArray h =>
    simp only [List.cons_append, List.append_assoc, List.nil_append, readValue, skip_cons (c := '[') rfl,
      skip_append h, skip_cons (c := ']') rfl]
  | emptyObject h =>
    simp only [List.cons_append, List.append_assoc, List.nil_append, readValue, skip_cons (c := '\x7b') rfl,
      skip_append h, skip_cons (c := '\x7d') rfl]
  | array h =>
    simp only [List.length_append, List.length_cons] at hfuel
    exact readValue_array h (hitems _ _ _ h (by omega))
  | object h =>
    simp only [List.length_append, List.length_cons] at hfuel
    exact readValue_object h (hfields _ _ _ h (by omega))

/-- The reader reads all texts of the grammar, if it has fuel for them. The induction is on the
fuel, for the three kinds of texts at once. -/
theorem reads (fuel : Nat) : ReadsValues fuel ∧ ReadsItems fuel ∧ ReadsFields fuel := by
  induction fuel with
  | zero =>
    refine ⟨fun t cs rest h hfuel _ => ?_, fun _ _ _ _ hfuel => absurd hfuel (Nat.not_lt_zero _),
      fun _ _ _ _ hfuel => absurd hfuel (Nat.not_lt_zero _)⟩
    obtain ⟨c, cs, rfl, -⟩ := h.begins
    exact absurd hfuel (by simp)
  | succ fuel ih =>
    obtain ⟨hvalues, hitems, hfields⟩ := ih
    exact ⟨.succ hitems hfields, .succ hvalues hitems, .succ hvalues hfields⟩

end Tree

end ControlLoop.Json
