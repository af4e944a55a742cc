import ControlLoop.Proofs.Json.Reader

/-!
# What is read was a text of the grammar

The reader of JSON passes nothing that the grammar does not know: whatever it reads as a value was a
text of that value, with space in front of it (`spelled`). So a whole text is read exactly if it is
one value, and as the only tree that it is a text of (`ofText?_eq_some_iff`).

Again the three statements `ValuesSpelled`, `ItemsSpelled` and `FieldsSpelled` are proved together,
by induction on the fuel. What was read is put together from the parts that the readers of tokens
have taken off the front.
-/

namespace ControlLoop.Json

/-! ## Numerals -/

namespace Numeral

variable {cs ds rest : List Char} {n : Numeral} {negative : Bool} {fraction : Option (List Char)}
  {exponent : Option (Bool × List Char)}

theorem run_of_span (hspan : Digits.span cs = (ds, rest)) (hds : ds ≠ []) : Digits.Run ds ∧ cs = ds ++ rest := by
  rw [Digits.span, List.span_eq_takeWhile_dropWhile] at hspan
  obtain ⟨rfl, rfl⟩ := Prod.mk.inj hspan
  exact ⟨⟨hds, fun c hc => List.mem_takeWhile_imp hc⟩, List.takeWhile_append_dropWhile.symm⟩

theorem exists_of_readExponentDigits (h : readExponentDigits negative cs = some (exponent, rest)) :
    ∃ ds, Digits.Run ds ∧ exponent = some (negative, ds) ∧ cs = ds ++ rest := by
  rw [readExponentDigits] at h
  split at h
  · cases h
  · next ds rest' hne hspan =>
    cases h
    obtain ⟨hrun, hcs⟩ := run_of_span hspan hne
    exact ⟨ds, hrun, rfl, hcs⟩

/-- What is read as an exponent was the text of one, which may be empty. -/
theorem exponentText_of_read (h : readExponent cs = some (exponent, rest)) :
    ∃ es, ExponentText exponent es ∧ cs = es ++ rest := by
  unfold readExponent at h
  split at h
  · obtain ⟨ds, hds, rfl, rfl⟩ := exists_of_readExponentDigits h
    exact ⟨_, .minus (.inl rfl) hds, rfl⟩
  · obtain ⟨ds, hds, rfl, rfl⟩ := exists_of_readExponentDigits h
    exact ⟨_, .minus (.inr rfl) hds, rfl⟩
  · obtain ⟨ds, hds, rfl, rfl⟩ := exists_of_readExponentDigits h
    exact ⟨_, .plus (.inl rfl) hds, rfl⟩
  · obtain ⟨ds, hds, rfl, rfl⟩ := exists_of_readExponentDigits h
    exact ⟨_, .plus (.inr rfl) hds, rfl⟩
  · obtain ⟨ds, hds, rfl, rfl⟩ := exists_of_readExponentDigits h
    exact ⟨_, .plain (.inl rfl) hds, rfl⟩
  · obtain ⟨ds, hds, rfl, rfl⟩ := exists_of_readExponentDigits h
    exact ⟨_, .plain (.inr rfl) hds, rfl⟩
  · cases h
    exact ⟨[], .none, rfl⟩

/-- What is read as a fraction was the text of one, which may be empty. -/
theorem fractionText_of_read (h : readFraction cs = some (fraction, rest)) :
    ∃ fs, FractionText fraction fs ∧ cs = fs ++ rest := by
  rw [readFraction.eq_def] at h
  split at h
  · split at h
    · cases h
    · next ds rest' hne hspan =>
      cases h
      obtain ⟨hrun, rfl⟩ := run_of_span hspan hne
      exact ⟨_, .some hrun, rfl⟩
  · cases h
    exact ⟨[], .none, rfl⟩

/-- What is read as the digits of a numeral has no zero in front of others. -/
theorem run_of_readWhole (h : readWhole cs = some (ds, rest)) :
    Digits.Run ds ∧ (ds.head? = some '0' → ds = ['0']) ∧ cs = ds ++ rest := by
  rw [readWhole] at h
  split at h
  · cases h
  · cases h
  · next ds' rest' hne hzero hspan =>
    cases h
    obtain ⟨hrun, hcs⟩ := run_of_span hspan hne
    refine ⟨hrun, fun hhead => ?_, hcs⟩
    rcases ds with _ | ⟨d, _ | ⟨d', ds⟩⟩
    · cases hhead
    · cases hhead
      rfl
    · cases hhead
      exact absurd rfl (hzero d' ds)

/-- What is read as a numeral was a text of it. -/
theorem hasText_of_read (h : read cs = some (n, rest)) : ∃ text, n.HasText text ∧ cs = text ++ rest := by
  unfold read at h
  simp only [Option.bind_eq_bind, Option.bind_eq_some_iff, Option.pure_def, Option.some.injEq, Prod.exists,
    Prod.mk.injEq] at h
  obtain ⟨ds, _, hwhole, fraction, _, hfraction, exponent, _, hexponent, rfl, rfl⟩ := h
  obtain ⟨fs, hfs, rfl⟩ := fractionText_of_read hfraction
  obtain ⟨es, hes, rfl⟩ := exponentText_of_read hexponent
  obtain ⟨hds, hzero, hcs⟩ := run_of_readWhole hwhole
  refine ⟨_, .mk hds hzero hfs hes, ?_⟩
  split at hcs <;> simpa using hcs

end Numeral

namespace Tree

variable {c : Char} {cs rest rest' : List Char} {fuel : Nat} {t : Tree} {s name : Option String} {pieces : List Piece}

/-! ## Strings -/

/-- What is read as the pieces of a string was their text, up to the quote that ends it. The
induction follows the reader, which takes one piece at a time. -/
theorem piecesText_of_read (h : readPieces cs = some (pieces, rest)) :
    ∃ text, PiecesText pieces text ∧ cs = text ++ '"' :: rest := by
  fun_induction readPieces cs generalizing pieces with
  | case1 => cases h
  | case2 cs =>
    cases h
    exact ⟨[], .nil, rfl⟩
  | case3 => cases h
  | case4 a b c d cs n hn ih =>
    obtain ⟨⟨pieces, _⟩, hread, heq⟩ := Option.map_eq_some_iff.mp h
    cases heq
    obtain ⟨text, htext, rfl⟩ := ih hread
    exact ⟨_, .unit hn htext, rfl⟩
  | case5 => cases h
  | case6 letter cs hletter c hc ih =>
    obtain ⟨⟨pieces, _⟩, hread, heq⟩ := Option.map_eq_some_iff.mp h
    cases heq
    obtain ⟨text, htext, rfl⟩ := ih hread
    exact ⟨_, .escaped hc htext, rfl⟩
  | case7 => cases h
  | case8 c cs hquote _ hescape hcontrol ih =>
    obtain ⟨⟨pieces, _⟩, hread, heq⟩ := Option.map_eq_some_iff.mp h
    cases heq
    obtain ⟨text, htext, rfl⟩ := ih hread
    -- a backslash would stand before something that it escapes
    have hslash : c ≠ '\\' := by
      intro hc
      cases text with
      | nil => exact hescape _ _ hc rfl
      | cons c' text => exact hescape _ _ hc rfl
    exact ⟨_, .self hquote hslash (Nat.le_of_not_lt hcontrol) htext, rfl⟩

/-- What is read as a string was its text, with both quotes. -/
theorem stringText_of_read (h : readString cs = some (s, rest)) :
    ∃ text, StringText s text ∧ '"' :: cs = text ++ rest := by
  obtain ⟨⟨pieces, _⟩, hread, heq⟩ := Option.map_eq_some_iff.mp h
  cases heq
  obtain ⟨text, htext, rfl⟩ := piecesText_of_read hread
  exact ⟨_, .mk htext, by simp⟩

/-! ## Values -/

/-- What is read as a value with so much fuel was a text of it, after space. -/
def ValuesSpelled (fuel : Nat) : Prop :=
  ∀ cs t rest, readValue fuel cs = some (t, rest) →
    ∃ before text, Space before ∧ HasText t text ∧ cs = before ++ text ++ rest

/-- What is read as items with so much fuel was a text of them. -/
def ItemsSpelled (fuel : Nat) : Prop :=
  ∀ cs items rest, readItems fuel cs = some (items, rest) → ∃ text, ItemsText items text ∧ cs = text ++ ']' :: rest

/-- What is read as fields with so much fuel was a text of them. -/
def FieldsSpelled (fuel : Nat) : Prop :=
  ∀ cs fields rest, readFields fuel cs = some (fields, rest) →
    ∃ text, FieldsText fields text ∧ cs = text ++ '\x7d' :: rest

theorem eq_append_of_readWord {word : List Char} (h : readWord word cs = some rest) : cs = word ++ rest := by
  fun_induction readWord word cs with
  | case1 =>
    cases h
    rfl
  | case2 w word cs ih => rw [ih h, List.cons_append]
  | case3 => cases h
  | case4 => cases h

theorem of_readWord_map {word : List Char} {t' : Tree} (h : (readWord word cs).map (t', ·) = some (t, rest)) :
    t = t' ∧ cs = word ++ rest := by
  obtain ⟨_, hread, ht⟩ := Option.map_eq_some_iff.mp h
  cases ht
  exact ⟨rfl, eq_append_of_readWord hread⟩

/-- Space up to a mark, if that comes next. -/
theorem exists_space_of_skip (h : skip cs = c :: rest) : ∃ before, Space before ∧ cs = before ++ c :: rest := by
  obtain ⟨before, hbefore, hcs⟩ := exists_space cs
  exact ⟨before, hbefore, h ▸ hcs⟩

/-- A value that is read up to a mark was a text with space around it. -/
theorem ValuesSpelled.padded (h : ValuesSpelled fuel) (hread : readValue fuel cs = some (t, rest))
    (hskip : skip rest = c :: rest') : ∃ text, PaddedText t text ∧ cs = text ++ c :: rest' := by
  obtain ⟨before, text, hbefore, htext, rfl⟩ := h cs t rest hread
  obtain ⟨after, hafter, rfl⟩ := exists_space_of_skip hskip
  exact ⟨_, .mk hbefore htext hafter, by simp⟩

/-- Items that are read with one more unit of fuel: a value, and then the end or a comma and the
rest. -/
theorem ItemsSpelled.succ (hvalue : ValuesSpelled fuel) (hitems : ItemsSpelled fuel) : ItemsSpelled (fuel + 1) := by
  intro cs items rest h
  rw [readItems] at h
  split at h
  · cases h
  · next item rest' hread =>
    split at h
    · next later hskip =>
      obtain ⟨⟨items, _⟩, hmore, heq⟩ := Option.map_eq_some_iff.mp h
      cases heq
      obtain ⟨text, htext, rfl⟩ := hvalue.padded hread hskip
      obtain ⟨texts, htexts, rfl⟩ := hitems _ _ _ hmore
      exact ⟨_, .more htext htexts, by simp⟩
    · next hskip =>
      cases h
      obtain ⟨text, htext, rfl⟩ := hvalue.padded hread hskip
      exact ⟨_, .last htext, rfl⟩
    · cases h

theorem nameText_of_read {ds : List Char} (hquote : skip cs = '"' :: ds) (hread : readString ds = some (name, rest))
    (hcolon : skip rest = ':' :: rest') : ∃ text, NameText name text ∧ cs = text ++ rest' := by
  obtain ⟨before, hbefore, rfl⟩ := exists_space_of_skip hquote
  obtain ⟨text, htext, heq⟩ := stringText_of_read hread
  obtain ⟨after, hafter, rfl⟩ := exists_space_of_skip hcolon
  exact ⟨_, .mk hbefore htext hafter, by rw [heq]; simp⟩

/-- Fields that are read with one more unit of fuel: a name, a value, and then the end or a comma
and the rest. -/
theorem FieldsSpelled.succ (hvalue : ValuesSpelled fuel) (hfields : FieldsSpelled fuel) :
    FieldsSpelled (fuel + 1) := by
  intro cs fields rest h
  rw [readFields] at h
  split at h
  · next ds hquote =>
    split at h
    · cases h
    · next name rest₁ hname =>
      split at h
      · next rest₂ hcolon =>
        obtain ⟨names, hnames, rfl⟩ := nameText_of_read hquote hname hcolon
        split at h
        · cases h
        · next value rest₃ hread =>
          split at h
          · next later hskip =>
            obtain ⟨⟨fields, _⟩, hmore, heq⟩ := Option.map_eq_some_iff.mp h
            cases heq
            obtain ⟨text, htext, rfl⟩ := hvalue.padded hread hskip
            obtain ⟨texts, htexts, rfl⟩ := hfields _ _ _ hmore
            exact ⟨_, .more hnames htext htexts, by simp⟩
          · next hskip =>
            cases h
            obtain ⟨text, htext, rfl⟩ := hvalue.padded hread hskip
            exact ⟨_, .last hnames htext, by simp⟩
          · cases h
      · cases h
  · cases h

/-- A value that is read with one more unit of fuel: the first character behind the space decides
which kind of value it is. -/
theorem ValuesSpelled.succ (hitems : ItemsSpelled fuel) (hfields : FieldsSpelled fuel) : ValuesSpelled (fuel + 1) := by
  intro cs t rest h
  obtain ⟨before, hbefore, hcs⟩ := exists_space cs
  suffices htext : ∃ text, HasText t text ∧ skip cs = text ++ rest by
    obtain ⟨text, htext, heq⟩ := htext
    exact ⟨before, text, hbefore, htext, by rw [hcs, heq, List.append_assoc]⟩
  rw [readValue] at h
  split at h
  · cases h
  · next ds heq =>
    obtain ⟨⟨s, _⟩, hread, hs⟩ := Option.map_eq_some_iff.mp h
    cases hs
    obtain ⟨text, htext, hds⟩ := stringText_of_read hread
    exact ⟨text, .string htext, heq.trans hds⟩
  · next ds heq =>
    split at h
    · next hskip =>
      cases h
      obtain ⟨inner, hinner, rfl⟩ := exists_space_of_skip hskip
      exact ⟨_, .emptyArray hinner, by simp [heq]⟩
    · rw [readItems_skip] at h
      obtain ⟨⟨items, _⟩, hread, ht⟩ := Option.map_eq_some_iff.mp h
      cases ht
      obtain ⟨text, htext, rfl⟩ := hitems _ _ _ hread
      exact ⟨_, .array htext, by simp [heq]⟩
  · next ds heq =>
    split at h
    · next hskip =>
      cases h
      obtain ⟨inner, hinner, rfl⟩ := exists_space_of_skip hskip
      exact ⟨_, .emptyObject hinner, by simp [heq]⟩
    · rw [readFields_skip] at h
      obtain ⟨⟨fields, _⟩, hread, ht⟩ := Option.map_eq_some_iff.mp h
      cases ht
      obtain ⟨text, htext, rfl⟩ := hfields _ _ _ hread
      exact ⟨_, .object htext, by simp [heq]⟩
  · next ds heq =>
    obtain ⟨rfl, rfl⟩ := of_readWord_map h
    exact ⟨_, .null, heq⟩
  · next ds heq =>
    obtain ⟨rfl, rfl⟩ := of_readWord_map h
    exact ⟨_, .yes, heq⟩
  · next ds heq =>
    obtain ⟨rfl, rfl⟩ := of_readWord_map h
    exact ⟨_, .no, heq⟩
  · obtain ⟨⟨n, _⟩, hread, ht⟩ := Option.map_eq_some_iff.mp h
    cases ht
    obtain ⟨text, htext, heq⟩ := Numeral.hasText_of_read hread
    exact ⟨text, .number htext, heq⟩

/-- The reader reads nothing but texts of the grammar. The induction is on the fuel, for the three
kinds of texts at once. -/
theorem spelled (fuel : Nat) : ValuesSpelled fuel ∧ ItemsSpelled fuel ∧ FieldsSpelled fuel := by
  induction fuel with
  | zero =>
    refine ⟨?_, ?_, ?_⟩
    all_goals
      intro cs t rest h
      cases h
  | succ fuel ih =>
    obtain ⟨hvalues, hitems, hfields⟩ := ih
    exact ⟨.succ hitems hfields, .succ hvalues hitems, .succ hvalues hfields⟩

/-- **The reader takes exactly the texts of the grammar**, and makes of a text the one tree that it
spells out. -/
theorem ofText?_eq_some_iff {text : String} : ofText? text = some t ↔ t.SpelledBy text := by
  rw [ofText?, ofChars?, SpelledBy]
  generalize text.toList = cs
  constructor
  · intro h
    split at h
    · next t' rest hread =>
      split at h
      · next hskip =>
        cases h
        obtain ⟨before, body, hbefore, hbody, rfl⟩ := (spelled _).1 cs t rest hread
        exact .mk hbefore hbody (skip_eq_nil_iff.mp hskip)
      · cases h
    · cases h
  · intro h
    obtain ⟨rest, hread, hskip⟩ := h.read [] (reads _).1 (Nat.le_succ (2 * cs.length)) Numeral.over_nil
    rw [List.append_nil] at hread
    rw [hread]
    exact if_pos hskip

end Tree

end ControlLoop.Json
