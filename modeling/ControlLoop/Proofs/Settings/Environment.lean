import ControlLoop.Proofs.Text.Blank
import ControlLoop.Proofs.Text.Digits
import ControlLoop.Settings.Environment

/-!
# What settings an environment has

A variable is unset or it has a text, and the text has a form: `SpellsNumber` and `SpellsFlag` say
which texts stand for which values, and `Holds` what a variable says. The settings of an environment
are these values or the defaults (`Reads`).

All variables are read by one function, one after the other, so what the chain does is put together
from what a step does: it stops at the first variable that is misspelled (`Stops.read_bind`), and
where none is, every step finds what its variable says (`Holds.read_eq`).

That an environment is read as a whole follows from three facts: either no variable is misspelled or
there is a first one that is (`forall_or_exists_firstMisspelled`); in the first case some settings
are what the variables say (`exists_reads`), and nothing but their combination may be refused; in
the second the reader stops at that variable (`stops_ofEnvironment`).
-/

namespace ControlLoop

namespace Span

theorem nanos_ofNanos {n : Nat} (h : n < 2 ^ 64 * 10 ^ 9) : (ofNanos n).nanos = n := by
  rw [ofNanos, ofNanos?, dif_pos h, Option.getD_some]

theorem nanos_ofMillis {ms : Nat} (h : ms < 2 ^ 64) : (ofMillis ms).nanos = ms * 10 ^ 6 :=
  nanos_ofNanos (by omega)

theorem nanos_ofSeconds {s : Nat} (h : s < 2 ^ 64) : (ofSeconds s).nanos = s * 10 ^ 9 :=
  nanos_ofNanos (by omega)

end Span

namespace Setting

/-! ## Texts that stand for values

What a text spells is said without the reader: by its digits, its sign and the blanks around it, or
as one of a few words. The two lemmas on `number?` and `flag?` are all that is known of the readers
later. -/

/-- The text is a number below the bound: digits after at most one plus sign, with any blanks
around. -/
def SpellsNumber (bound : Nat) (s : String) (n : Nat) : Prop :=
  ∃ before sign digits after, s.toList = before ++ (sign ++ digits) ++ after ∧ Text.Blank before ∧ Text.Blank after ∧
    (sign = [] ∨ sign = ['+']) ∧ Digits.Run digits ∧ Digits.value digits = n ∧ n < bound

/-- The words for yes and for no. -/
def words : Bool → List String
  | true => ["1", "true", "yes", "on"]
  | false => ["0", "false", "no", "off"]

/-- The text is one of the words for yes or no in any case, with any blanks around. -/
def SpellsFlag (s : String) (b : Bool) : Prop :=
  ∃ before word after, s.toList = before ++ word ++ after ∧ Text.Blank before ∧ Text.Blank after ∧
    String.ofList (word.map Char.toLower) ∈ words b

variable {bound n : Nat} {s : String} {b : Bool}

/-- The text without a plus sign in front. -/
def unsigned : List Char → List Char
  | '+' :: rest => rest
  | cs => cs

/-- A text is what remains without the sign, after the sign or nothing. -/
theorem unsigned_eq (cs : List Char) : ∃ sign, (sign = [] ∨ sign = ['+']) ∧ cs = sign ++ unsigned cs := by
  unfold unsigned
  split
  · exact ⟨['+'], .inr rfl, rfl⟩
  · exact ⟨[], .inl rfl, rfl⟩

theorem unsigned_append {sign digits : List Char} (hsign : sign = [] ∨ sign = ['+']) (hdigits : Digits.Run digits) :
    unsigned (sign ++ digits) = digits := by
  rcases hsign with rfl | rfl
  · obtain ⟨d, ds, rfl⟩ := List.exists_cons_of_ne_nil hdigits.1
    have hplus : d ≠ '+' := Digits.ne_of_isDigit (hdigits.2 d List.mem_cons_self) rfl
    rw [List.nil_append, unsigned]
    rintro rest heq
    exact hplus (List.cons.inj heq).1
  · rfl

/-- A number is read exactly from digits, at least one of them, whose value is below the bound. -/
theorem number?_eq (bound : Nat) (s : String) :
    number? bound s =
      if unsigned (Text.trim s.toList) ≠ [] ∧ (unsigned (Text.trim s.toList)).all Char.isDigit ∧
        Digits.value (unsigned (Text.trim s.toList)) < bound then
        some (Digits.value (unsigned (Text.trim s.toList))) else none := rfl

/-- The reader of numbers reads the texts that spell a number, and reads them as that number. -/
theorem number?_eq_some_iff : number? bound s = some n ↔ SpellsNumber bound s n := by
  rw [number?_eq]
  constructor
  · intro h
    obtain ⟨before, after, hbefore, hafter, heq⟩ := Text.exists_eq_append_trim s.toList
    obtain ⟨sign, hsign, htrim⟩ := unsigned_eq (Text.trim s.toList)
    obtain ⟨⟨hne, hall, hlt⟩, hvalue⟩ := Option.ite_none_right_eq_some.mp h
    cases hvalue
    rw [htrim] at heq
    exact ⟨before, sign, _, after, heq, hbefore, hafter, hsign, ⟨hne, List.all_eq_true.mp hall⟩, rfl, hlt⟩
  · rintro ⟨before, sign, digits, after, heq, hbefore, hafter, hsign, hrun, rfl, hlt⟩
    have hword : ∀ c ∈ sign ++ digits, Text.isBlank c = false := by
      refine List.forall_mem_append.mpr ⟨?_, fun c hc => Digits.isBlank_of_isDigit (hrun.2 c hc)⟩
      rcases hsign with rfl | rfl
      · exact nofun
      · exact List.forall_mem_singleton.mpr rfl
    rw [heq, Text.trim_append hbefore hword hafter, unsigned_append hsign hrun]
    exact if_pos ⟨hrun.1, List.all_eq_true.mpr hrun.2, hlt⟩

/-- There is no blank in these words, so lowering can not make one of them out of a text with
blanks. -/
theorem isBlank_of_mem_words {word : List Char} (h : String.ofList (word.map Char.toLower) ∈ words b) :
    ∀ c ∈ word, Text.isBlank c = false := by
  have hwords : ∀ b, ∀ spelled ∈ words b, spelled.toList.any Text.isBlank = false := by decide
  intro c hc
  by_contra hblank
  rw [Bool.not_eq_false] at hblank
  have hlower : c ∈ (String.ofList (word.map Char.toLower)).toList := by
    rw [String.toList_ofList, ← Text.toLower_of_isBlank hblank]
    exact List.mem_map_of_mem hc
  have hany := List.any_eq_true.mpr ⟨c, hlower, hblank⟩
  rw [hwords b _ h] at hany
  cases hany

theorem not_mem_words_true : s ∈ words false → s ∉ words true := by
  have hwords : ∀ s ∈ words false, s ∉ words true := by decide
  exact hwords s

/-- The reader of flags reads the words for yes and no in any case, and nothing else. -/
theorem flag?_eq_some_iff : flag? s = some b ↔ SpellsFlag s b := by
  constructor
  · intro h
    obtain ⟨before, after, hbefore, hafter, heq⟩ := Text.exists_eq_append_trim s.toList
    refine ⟨before, _, after, heq, hbefore, hafter, ?_⟩
    rw [flag?] at h
    split at h
    · next hyes =>
      cases h
      exact hyes
    · split at h
      · next hno =>
        cases h
        exact hno
      · cases h
  · rintro ⟨before, word, after, heq, hbefore, hafter, hmem⟩
    rw [flag?, heq, Text.trim_append hbefore (isBlank_of_mem_words hmem) hafter]
    cases b with
    | true => exact if_pos hmem
    | false => exact (if_neg (not_mem_words_true hmem)).trans (if_pos hmem)

/-! ## Variables -/

/-- What a variable says: nothing if it has no text, and otherwise the value that its text stands
for. -/
inductive Holds {α : Type} (env : Environment) (name : String) (Spells : String → α → Prop) : Option α → Prop
  | unset (h : env.text? name = none) : Holds env name Spells none
  | set {s a} (h : env.text? name = some s) (ha : Spells s a) : Holds env name Spells (some a)

/-- The variable has a text, and that has not the form that it should have. -/
def Misspelled (env : Environment) (name : String) (form : String → Prop) : Prop :=
  ∃ s, env.text? name = some s ∧ ¬form s

/-- The variables whose text must have a form, in the order in which they are read. -/
def forms : List (String × (String → Prop)) :=
  [("SYNCER_DUMP_LEDGER", fun s => ∃ b, SpellsFlag s b),
    ("SYNCER_WORKERS", fun s => ∃ n, SpellsNumber (2 ^ 64) s n),
    ("SYNCER_RETRY_LIMIT", fun s => ∃ n, SpellsNumber (2 ^ 32) s n),
    ("SYNCER_BACKOFF_BASE_MS", fun s => ∃ n, SpellsNumber (2 ^ 64) s n),
    ("SYNCER_BACKOFF_MAX_MS", fun s => ∃ n, SpellsNumber (2 ^ 64) s n),
    ("SYNCER_RESYNC_SECS", fun s => ∃ n, SpellsNumber (2 ^ 64) s n),
    ("SYNCER_LEDGER_CAPACITY", fun s => ∃ n, SpellsNumber (2 ^ 64) s n)]

/-- The variable is the first one of the list that is misspelled. -/
inductive FirstMisspelled (env : Environment) : List (String × (String → Prop)) → String → Prop
  | head {name form forms} (h : Misspelled env name form) : FirstMisspelled env ((name, form) :: forms) name
  | tail {name form forms first} (h : ¬Misspelled env name form) (hfirst : FirstMisspelled env forms first) :
    FirstMisspelled env ((name, form) :: forms) first

/-- Of the variables none is misspelled, or there is a first one that is. -/
theorem forall_or_exists_firstMisspelled (env : Environment) (forms : List (String × (String → Prop))) :
    (∀ v ∈ forms, ¬Misspelled env v.1 v.2) ∨ ∃ name, FirstMisspelled env forms name := by
  induction forms with
  | nil => exact .inl nofun
  | cons v forms ih =>
    by_cases hv : Misspelled env v.1 v.2
    · exact .inr ⟨v.1, .head hv⟩
    · rcases ih with hnone | ⟨name, hfirst⟩
      · exact .inl (List.forall_mem_cons.mpr ⟨hv, hnone⟩)
      · exact .inr ⟨name, .tail hv hfirst⟩

section

variable {α β : Type} {env : Environment} {name : String} {forms : List (String × (String → Prop))}
  {Spells : String → α → Prop} {read? : String → Option α} {o : Option α}

theorem Holds.not_misspelled (h : Holds env name Spells o) : ¬Misspelled env name fun s => ∃ a, Spells s a := by
  rintro ⟨s, hs, hform⟩
  cases h with
  | unset hnone =>
    rw [hnone] at hs
    cases hs
  | set hsome ha =>
    rw [hsome] at hs
    cases hs
    exact hform ⟨_, ha⟩

/-- A variable that is not misspelled says something, if only that it is unset. -/
theorem exists_holds (h : ¬Misspelled env name fun s => ∃ a, Spells s a) : ∃ o, Holds env name Spells o := by
  match hs : env.text? name with
  | none => exact ⟨none, .unset hs⟩
  | some s =>
    obtain ⟨a, ha⟩ : ∃ a, Spells s a := by
      by_contra hform
      exact h ⟨s, hs, hform⟩
    exact ⟨some a, .set hs ha⟩

/-- A variable that says something is read as that. -/
theorem Holds.read_eq (h : Holds env name Spells o) (hread : ∀ s a, read? s = some a ↔ Spells s a) :
    read env name read? = .ok o := by
  cases h with
  | unset hnone => rw [read, hnone]
  | set hsome ha => simp only [read, hsome, (hread _ _).mpr ha]

/-- A variable that is misspelled is refused by its name. -/
theorem Misspelled.read_eq (h : Misspelled env name fun s => ∃ a, Spells s a)
    (hread : ∀ s a, read? s = some a ↔ Spells s a) : read env name read? = .error (.invalidValue name) := by
  obtain ⟨s, hs, hform⟩ := h
  have hnone : read? s = none := by
    apply Option.eq_none_iff_forall_ne_some.mpr
    intro a ha
    exact hform ⟨a, (hread s a).mp ha⟩
  simp only [read, hs, hnone]

theorem Holds.nanos_millis {ms : Option Nat} {n : Nat} {d : Span} (h : Holds env name (SpellsNumber (2 ^ 64)) ms)
    (hd : d.nanos = n * 10 ^ 6) : ((ms.map Span.ofMillis).getD d).nanos = ms.getD n * 10 ^ 6 := by
  cases h with
  | unset => exact hd
  | set _ hn =>
    obtain ⟨_, _, _, _, _, _, _, _, _, _, hlt⟩ := hn
    rw [Option.map_some, Option.getD_some, Option.getD_some, Span.nanos_ofMillis hlt]

theorem Holds.nanos_seconds {s : Option Nat} (h : Holds env name (SpellsNumber (2 ^ 64)) s) :
    (s.map Span.ofSeconds).map Span.nanos = s.map (· * 10 ^ 9) := by
  cases h with
  | unset => rfl
  | set _ hn =>
    obtain ⟨_, _, _, _, _, _, _, _, _, _, hlt⟩ := hn
    rw [Option.map_some, Option.map_some, Option.map_some, Span.nanos_ofSeconds hlt]

/-! ## Reading one after the other

`Stops` is about the reader and the list of forms that it has yet to read. `Stops.read_bind` adds
one variable to both in front, so the chain of binds is worked off from its end. -/

/-- The reader stops at the first variable that is misspelled, and names it. -/
def Stops (env : Environment) (forms : List (String × (String → Prop))) (result : Except ConfigError α) : Prop :=
  ∀ name, FirstMisspelled env forms name → result = .error (.invalidValue name)

theorem stops_nil (result : Except ConfigError α) : Stops env [] result := nofun

/-- A reader that looks at one more variable first stops there or goes on. -/
theorem Stops.read_bind {k : Option α → Except ConfigError β} (hread : ∀ s a, read? s = some a ↔ Spells s a)
    (hk : ∀ o, Stops env forms (k o)) :
    Stops env ((name, fun s => ∃ a, Spells s a) :: forms) (read env name read? >>= k) := by
  intro first h
  cases h with
  | head h =>
    rw [h.read_eq hread]
    rfl
  | tail h hfirst =>
    obtain ⟨o, ho⟩ := exists_holds h
    rw [ho.read_eq hread]
    exact hk o first hfirst

theorem Stops.bind {result : Except ConfigError α} (h : Stops env forms result) (k : α → Except ConfigError β) :
    Stops env forms (result >>= k) := by
  intro first hfirst
  rw [h first hfirst]
  rfl

end

end Setting

namespace Config

open Setting

/-- The reader of the settings of a loop stops at the first of its variables that is misspelled. -/
theorem stops_ofEnvironment (env : Environment) : Stops env forms.tail (ofEnvironment env) := by
  apply Stops.read_bind fun _ _ => number?_eq_some_iff
  intro workers
  apply Stops.read_bind fun _ _ => number?_eq_some_iff
  intro retryLimit
  apply Stops.read_bind fun _ _ => number?_eq_some_iff
  intro backoffBase
  apply Stops.read_bind fun _ _ => number?_eq_some_iff
  intro backoffMax
  apply Stops.read_bind fun _ _ => number?_eq_some_iff
  intro resync
  apply Stops.read_bind fun _ _ => number?_eq_some_iff
  intro ledgerCapacity
  exact stops_nil _

theorem validate_bind (c : Config) (f : Config → DaemonConfig) :
    (do c.validate; return c : Except ConfigError Config) >>= (fun config => return f config) =
      c.validate.map fun _ => f c := by
  cases c.validate <;> rfl

end Config

namespace DaemonConfig

open Setting

/-- The reader of the settings of a daemon stops at the first of all variables that is misspelled;
it reads one more before those of the loop. -/
theorem stops_ofEnvironment (env : Environment) : Stops env forms (ofEnvironment env) := by
  apply Stops.read_bind fun _ _ => flag?_eq_some_iff
  intro dumpLedger
  exact (Config.stops_ofEnvironment env).bind _

/-- The settings are what the variables say, or the defaults. Each field has its variable, and the
reader does not come into it. -/
structure Reads (env : Environment) (c : DaemonConfig) : Prop where
  name : c.name = (env.text? "SYNCER_NAME").getD "syncer-daemon"
  dumpLedger : ∃ b, Holds env "SYNCER_DUMP_LEDGER" SpellsFlag b ∧ c.dumpLedger = b.getD true
  workers : ∃ n, Holds env "SYNCER_WORKERS" (SpellsNumber (2 ^ 64)) n ∧ c.config.workers = n.getD 1
  retryLimit : ∃ n, Holds env "SYNCER_RETRY_LIMIT" (SpellsNumber (2 ^ 32)) n ∧ c.config.retryLimit = n.getD 5
  backoffBase : ∃ ms, Holds env "SYNCER_BACKOFF_BASE_MS" (SpellsNumber (2 ^ 64)) ms ∧
    c.config.backoffBase.nanos = ms.getD 5 * 10 ^ 6
  backoffMax : ∃ ms, Holds env "SYNCER_BACKOFF_MAX_MS" (SpellsNumber (2 ^ 64)) ms ∧
    c.config.backoffMax.nanos = ms.getD 1000 * 10 ^ 6
  resync : ∃ s, Holds env "SYNCER_RESYNC_SECS" (SpellsNumber (2 ^ 64)) s ∧
    c.config.resync.map Span.nanos = s.map (· * 10 ^ 9)
  ledgerCapacity : ∃ n, Holds env "SYNCER_LEDGER_CAPACITY" (SpellsNumber (2 ^ 64)) n ∧
    c.config.ledgerCapacity = n.getD 256

variable {env : Environment} {c : DaemonConfig}

/-- What the variables say is what is read. -/
theorem Reads.ofEnvironment_eq (h : Reads env c) : ofEnvironment env = c.config.validate.map fun _ => c := by
  obtain ⟨hname, ⟨b, hb, hdump⟩, ⟨w, hw, hworkers⟩, ⟨r, hr, hretry⟩, ⟨lo, hlo, hbase⟩, ⟨hi, hhi, hmax⟩,
    ⟨p, hp, hresync⟩, ⟨n, hn, hcapacity⟩⟩ := h
  have hnumber : ∀ bound s n, number? bound s = some n ↔ SpellsNumber bound s n := fun _ _ _ => number?_eq_some_iff
  have hbase' : (lo.map Span.ofMillis).getD (Span.ofMillis 5) = c.config.backoffBase :=
    Span.ext_nanos ((hlo.nanos_millis (by decide)).trans hbase.symm)
  have hmax' : (hi.map Span.ofMillis).getD (Span.ofSeconds 1) = c.config.backoffMax :=
    Span.ext_nanos ((hhi.nanos_millis (by decide)).trans hmax.symm)
  have hresync' : p.map Span.ofSeconds = c.config.resync :=
    Option.map_injective (fun _ _ => Span.ext_nanos) (hp.nanos_seconds.trans hresync.symm)
  obtain ⟨name, dumpLedger, workers, retryLimit, backoffBase, backoffMax, resync, ledgerCapacity⟩ := c
  dsimp only at hname hdump hworkers hretry hcapacity hbase' hmax' hresync'
  subst hname hdump hworkers hretry hcapacity hbase' hmax' hresync'
  rw [ofEnvironment, hb.read_eq fun _ _ => flag?_eq_some_iff, Config.ofEnvironment, hw.read_eq (hnumber _),
    hr.read_eq (hnumber _), hlo.read_eq (hnumber _), hhi.read_eq (hnumber _), hp.read_eq (hnumber _),
    hn.read_eq (hnumber _)]
  exact Config.validate_bind _ _

/-- Where nothing is misspelled, the variables say what the settings are. -/
theorem exists_reads (h : ∀ v ∈ forms, ¬Misspelled env v.1 v.2) : ∃ c, Reads env c := by
  simp only [forms, List.forall_mem_cons] at h
  obtain ⟨hb, hw, hr, hlo, hhi, hp, hn, -⟩ := h
  obtain ⟨b, hb⟩ := exists_holds hb
  obtain ⟨w, hw⟩ := exists_holds hw
  obtain ⟨r, hr⟩ := exists_holds hr
  obtain ⟨lo, hlo⟩ := exists_holds hlo
  obtain ⟨hi, hhi⟩ := exists_holds hhi
  obtain ⟨p, hp⟩ := exists_holds hp
  obtain ⟨n, hn⟩ := exists_holds hn
  exact ⟨⟨_, _, ⟨_, _, _, _, _, _⟩⟩,
    { name := rfl
      dumpLedger := ⟨b, hb, rfl⟩
      workers := ⟨w, hw, rfl⟩
      retryLimit := ⟨r, hr, rfl⟩
      backoffBase := ⟨lo, hlo, hlo.nanos_millis (d := Span.ofMillis 5) (by decide)⟩
      backoffMax := ⟨hi, hhi, hhi.nanos_millis (d := Span.ofSeconds 1) (by decide)⟩
      resync := ⟨p, hp, hp.nanos_seconds⟩
      ledgerCapacity := ⟨n, hn, rfl⟩ }⟩

theorem Reads.not_misspelled (h : Reads env c) : ∀ v ∈ forms, ¬Misspelled env v.1 v.2 := by
  obtain ⟨b, hb, -⟩ := h.dumpLedger
  obtain ⟨w, hw, -⟩ := h.workers
  obtain ⟨r, hr, -⟩ := h.retryLimit
  obtain ⟨lo, hlo, -⟩ := h.backoffBase
  obtain ⟨hi, hhi, -⟩ := h.backoffMax
  obtain ⟨p, hp, -⟩ := h.resync
  obtain ⟨n, hn, -⟩ := h.ledgerCapacity
  simp only [forms, List.forall_mem_cons]
  exact ⟨hb.not_misspelled, hw.not_misspelled, hr.not_misspelled, hlo.not_misspelled, hhi.not_misspelled,
    hp.not_misspelled, hn.not_misspelled, nofun⟩

/-- An environment has settings, or a first variable that is misspelled. -/
theorem reads_or_error (env : Environment) :
    (∃ c, Reads env c ∧ ofEnvironment env = c.config.validate.map fun _ => c) ∨
      ∃ name, FirstMisspelled env forms name ∧ ofEnvironment env = .error (.invalidValue name) := by
  rcases forall_or_exists_firstMisspelled env forms with hnone | ⟨name, hfirst⟩
  · obtain ⟨c, hc⟩ := exists_reads hnone
    exact .inl ⟨c, hc, hc.ofEnvironment_eq⟩
  · exact .inr ⟨name, hfirst, stops_ofEnvironment env name hfirst⟩

/-- Settings are read exactly if they are what the variables say and go together. -/
theorem ofEnvironment_eq_ok_iff : ofEnvironment env = .ok c ↔ Reads env c ∧ c.config.validate = .ok () := by
  constructor
  · intro h
    rcases reads_or_error env with ⟨c', hreads, heq⟩ | ⟨name, -, heq⟩
    · rw [heq] at h
      match hvalid : c'.config.validate with
      | .ok () =>
        rw [hvalid] at h
        cases h
        exact ⟨hreads, hvalid⟩
      | .error e =>
        rw [hvalid] at h
        cases h
    · rw [heq] at h
      cases h
  · rintro ⟨hreads, hvalid⟩
    rw [hreads.ofEnvironment_eq, hvalid]
    rfl

/-- An environment is refused for the first variable that is misspelled, or because its settings do
not go together. -/
theorem of_ofEnvironment_eq_error {e : ConfigError} (h : ofEnvironment env = .error e) :
    (∃ name, FirstMisspelled env forms name ∧ e = .invalidValue name) ∨
      ∃ c, Reads env c ∧ c.config.validate = .error e := by
  rcases reads_or_error env with ⟨c, hreads, heq⟩ | ⟨name, hfirst, heq⟩
  · rw [heq] at h
    match hvalid : c.config.validate with
    | .ok () =>
      rw [hvalid] at h
      cases h
    | .error e' =>
      rw [hvalid] at h
      cases h
      exact .inr ⟨c, hreads, hvalid⟩
  · rw [heq] at h
    cases h
    exact .inl ⟨name, hfirst, rfl⟩

/-- **An environment is read exactly, as a whole, or not at all.** The settings of a daemon are what
the variables say, with the defaults for those that have no text, and they go together: there are
workers, the ledger has room, the first wait is not longer than the longest and the period is not
zero. There are such settings exactly if no variable is misspelled, and otherwise the first one in
the order of reading is the error. Settings that do not go together are an error only where every
variable could be read. -/
theorem environment_read_as_whole (env : Environment) :
    (∀ c, ofEnvironment env = .ok c ↔ Reads env c ∧ c.config.validate = .ok ()) ∧
      (∀ c, ofEnvironment env = .ok c → 1 ≤ c.config.workers ∧ 1 ≤ c.config.ledgerCapacity ∧
        c.config.backoffBase ≤ c.config.backoffMax ∧ c.config.resync ≠ some Span.zero) ∧
      ((∃ c, Reads env c) ↔ ∀ v ∈ forms, ¬Misspelled env v.1 v.2) ∧
      (∀ name, FirstMisspelled env forms name → ofEnvironment env = .error (.invalidValue name)) ∧
      ∀ e, ofEnvironment env = .error e →
        (∃ name, FirstMisspelled env forms name ∧ e = .invalidValue name) ∨
          ∃ c, Reads env c ∧ c.config.validate = .error e := by
  refine ⟨fun c => ofEnvironment_eq_ok_iff, ?_, ?_, stops_ofEnvironment env, fun e => of_ofEnvironment_eq_error⟩
  · intro c hc
    obtain ⟨-, hvalid⟩ := ofEnvironment_eq_ok_iff.mp hc
    obtain ⟨hworkers, hcapacity, horder, hresync⟩ := Config.validate_eq_ok_iff.mp hvalid
    exact ⟨Nat.pos_of_ne_zero hworkers, Nat.pos_of_ne_zero hcapacity, horder, hresync⟩
  · constructor
    · rintro ⟨c, hc⟩
      exact hc.not_misspelled
    · exact exists_reads

end DaemonConfig

end ControlLoop
