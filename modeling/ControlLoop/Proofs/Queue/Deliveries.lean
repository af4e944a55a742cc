import ControlLoop.Proofs.Queue.Events

/-!
# What a queue hands out

From what is seen of a queue alone one can write down in which order it has to hand out its keys: a
key that is put in comes to the end of the line, unless it stands there already or is handed out;
and a key that is given back comes to the end of the line if it was put in since it was handed out.
Nothing else makes the line longer (`line`).

A queue keeps no history, only the keys that wait and two sets. Still it hands out exactly this
line: what it has handed out so far, followed by what waits, is the line
(`queue_hands_out_the_line`). So no key that is put in is forgotten, no key is handed out unasked,
and all that is said of a key between two deliveries comes to one delivery.
-/

namespace ControlLoop.Queue

/-! ## Reading a history

These functions look at events only, never at a queue. They are recursive over the history, which
has its newest event in front, so that each says what one more event changes; what a key that is put
in changes is the same for a client and for a timer, and stated for both (`Event.inserted?`). -/

/-- The keys that were handed out, the first one first. -/
def deliveries : History → List Key
  | [] => []
  | .delivered key :: earlier => deliveries earlier ++ [key]
  | _ :: earlier => deliveries earlier

/-- Is the key handed out, and not given back since? -/
def isOut (key : Key) : History → Bool
  | [] => false
  | .delivered k :: earlier => k = key || isOut key earlier
  | .givenBack k :: earlier => k ≠ key && isOut key earlier
  | _ :: earlier => isOut key earlier

/-- Was the key put in since it was last handed out? -/
def isOwed (key : Key) : History → Bool
  | [] => false
  | .added k :: earlier | .released k :: earlier => k = key || isOwed key earlier
  | .delivered k :: earlier => k ≠ key && isOwed key earlier
  | _ :: earlier => isOwed key earlier

/-- The keys in the order in which they have to be handed out, those that were handed out already
included. It is told by the history alone, so it can be compared with what the queue does. -/
def line : History → List Key
  | [] => []
  | .added key :: earlier | .released key :: earlier =>
    -- it stands in line if it came there more often than it was handed out
    if (deliveries earlier).count key < (line earlier).count key ∨ isOut key earlier = true then line earlier
    else line earlier ++ [key]
  | .givenBack key :: earlier =>
    if isOut key earlier = true ∧ isOwed key earlier = true then line earlier ++ [key] else line earlier
  | _ :: earlier => line earlier

/-- How often the key was put in for the first time, or for the first time after a delivery. -/
def rounds (key : Key) : History → Nat
  | [] => 0
  | e :: earlier =>
    if e.inserted? = some key ∧ isOwed key earlier = false then rounds key earlier + 1 else rounds key earlier

section inserted

variable {e : Event} {key other : Key} {h : History}

theorem deliveries_inserted (he : e.inserted? = some key) : deliveries (e :: h) = deliveries h := by
  cases e <;> cases he <;> rfl

theorem isOut_inserted (he : e.inserted? = some key) : isOut other (e :: h) = isOut other h := by
  cases e <;> cases he <;> rfl

/-- The key that was put in is owed a delivery, and no other is owed one for it. -/
theorem isOwed_inserted (he : e.inserted? = some key) :
    isOwed other (e :: h) = (decide (key = other) || isOwed other h) := by
  cases e <;> cases he <;> rfl

/-- The line becomes longer by a key that is put in, unless the key stands in it already or is
handed out. -/
theorem line_inserted (he : e.inserted? = some key) :
    line (e :: h) =
      if (deliveries h).count key < (line h).count key ∨ isOut key h = true then line h else line h ++ [key] := by
  cases e <;> cases he <;> rfl

/-- A key that was put in is owed until it is handed out. -/
theorem isOwed_of_inserted {later earlier : History} (he : e.inserted? = some key) (hno : .delivered key ∉ later) :
    isOwed key (later ++ e :: earlier) = true := by
  induction later with
  | nil => simp [isOwed_inserted he]
  | cons f later ih =>
    obtain ⟨hf, hno⟩ := not_or.mp (mt List.mem_cons.mpr hno)
    have ih := ih hno
    rw [List.cons_append]
    cases f with
    | delivered k =>
      have hk : k ≠ key := fun heq => hf (heq ▸ rfl)
      simp [isOwed, hk, ih]
    | _ => simp [isOwed, ih]

end inserted

/-! ## What a queue knows of its history

A queue keeps two sets and a line, and `Knows` says what each of them tells of the history. Its
first clause is the order: what was handed out and then what waits is the line. To keep it one has
to know that a key stands in the line exactly if it waits (`Knows.count_lt_count_iff`), which is
where the soundness of the queue comes in. -/

/-- All that a queue knows is true of its history: which keys are handed out, which are owed a
delivery, and which stand in line. -/
structure Knows (q : Queue) (h : History) : Prop where
  /-- what was handed out and what waits is the line -/
  line_eq : deliveries h ++ q.pending = line h
  /-- the keys that are handed out -/
  mem_processing : ∀ key, key ∈ q.processing ↔ isOut key h = true
  /-- the keys that are still to be handed out wait or are marked -/
  owed : ∀ key, isOwed key h = true ↔ key ∈ q.pending ∨ key ∈ q.dirty
  /-- a key has been handed out once for each time that it was put in first -/
  rounds_eq : ∀ key, (deliveries h).count key + (isOwed key h).toNat = rounds key h
  /-- a key is handed out only if it is owed -/
  prompted : ∀ key later earlier, h = later ++ .delivered key :: earlier → isOwed key earlier = true

namespace Knows

variable {σ : Type} {q r : Queue} {h events : History} {key : Key} {e : Event} {a : Action σ}

/-- An empty queue knows of nothing, and nothing has happened to it. -/
theorem empty : Knows {} [] where
  line_eq := rfl
  mem_processing := by simp [isOut]
  owed := by simp [isOwed]
  rounds_eq _ := rfl
  prompted := by simp

/-- Only the keys that wait, are handed out or marked matter. -/
theorem congr (hk : q.Knows h) (hp : r.pending = q.pending) (hout : r.processing = q.processing)
    (hd : r.dirty = q.dirty) : r.Knows h where
  line_eq := hp ▸ hk.line_eq
  mem_processing := hout ▸ hk.mem_processing
  owed := hp ▸ hd ▸ hk.owed
  rounds_eq := hk.rounds_eq
  prompted := hk.prompted

/-- A key stands in line if and only if it waits. -/
theorem count_lt_count_iff (hk : q.Knows h) (key : Key) :
    (deliveries h).count key < (line h).count key ↔ key ∈ q.pending := by
  rw [← hk.line_eq, List.count_append, Nat.lt_add_right_iff_pos, List.count_pos_iff]

theorem prompted_cons (hk : q.Knows h) (hne : ∀ key, e ≠ .delivered key) (key : Key) (later earlier : History)
    (heq : e :: h = later ++ .delivered key :: earlier) : isOwed key earlier = true := by
  cases later with
  | nil => exact absurd (List.cons.inj heq).1 (hne key)
  | cons _ later => exact hk.prompted key later earlier (List.cons.inj heq).2

/-- To ask that a key be put in later changes nothing yet. -/
theorem asked (hk : q.Knows h) (key : Key) (d : Moment) : q.Knows (.asked key d :: h) where
  line_eq := hk.line_eq
  mem_processing := hk.mem_processing
  owed := hk.owed
  rounds_eq := hk.rounds_eq
  prompted := hk.prompted_cons (by simp)

/-- A key is put in. -/
theorem insert (hk : q.Knows h) (hq : q.Sound) (he : e.inserted? = some key) : (q.insert key).Knows (e :: h) where
  line_eq := by
    rw [deliveries_inserted he, line_inserted he]
    by_cases hout : key ∈ q.processing
    · rw [insert_of_mem_processing hout, if_pos (.inr ((hk.mem_processing key).mp hout))]
      exact hk.line_eq
    · by_cases hw : key ∈ q.queued
      · have hp := (hq.mem_queued key).mp hw
        rw [insert_of_mem_queued hout hw, if_pos (.inl ((hk.count_lt_count_iff key).mpr hp))]
        exact hk.line_eq
      · have hnot : ¬((deliveries h).count key < (line h).count key ∨ isOut key h = true) := by
          rintro (hlt | ho)
          · exact hw ((hq.mem_queued key).mpr ((hk.count_lt_count_iff key).mp hlt))
          · exact hout ((hk.mem_processing key).mpr ho)
        rw [insert_of_not_mem hout hw, if_neg hnot, ← hk.line_eq, List.append_assoc]
        rfl
  mem_processing other := by rw [insert_processing, isOut_inserted he, hk.mem_processing]
  owed other := by
    rw [isOwed_inserted he, Bool.or_eq_true, decide_eq_true_iff, hk.owed, hq.mem_pending_insert, mem_dirty_insert]
    constructor
    · rintro (rfl | hp | hd)
      · by_cases hout : key ∈ q.processing
        · exact .inr (.inr ⟨rfl, hout⟩)
        · exact .inl (.inr ⟨rfl, hout⟩)
      · exact .inl (.inl hp)
      · exact .inr (.inl hd)
    · rintro ((hp | ⟨rfl, -⟩) | hd | ⟨rfl, -⟩)
      · exact .inr (.inl hp)
      · exact .inl rfl
      · exact .inr (.inr hd)
      · exact .inl rfl
  rounds_eq other := by
    have hrounds := hk.rounds_eq other
    rw [deliveries_inserted he, isOwed_inserted he, rounds, he]
    by_cases heq : key = other
    · cases ho : isOwed other h <;> simp_all
    · have hne : ¬(some key = some other ∧ isOwed other h = false) := fun hand => heq (Option.some.inj hand.1)
      rw [if_neg hne, decide_eq_false heq, Bool.false_or]
      exact hrounds
  prompted := hk.prompted_cons fun k hd => by
    rw [hd] at he
    cases he

/-- The oldest key is handed out. -/
theorem handOut (hk : q.Knows h) (hq : q.Sound) {rest : List Key} (hp : q.pending = key :: rest) (ticket : Ticket) :
    (q.handOut ticket key rest).Knows (.delivered key :: h) := by
  have hmem : key ∈ q.pending := hp ▸ List.mem_cons_self
  have howed : isOwed key h = true := (hk.owed key).mpr (.inl hmem)
  have hrest : key ∉ rest := (List.nodup_cons.mp (hp ▸ hq.nodup_pending)).1
  have hclean : key ∉ q.dirty := fun hd => hq.not_mem_pending key (hq.mem_processing key hd) hmem
  constructor
  case line_eq =>
    show deliveries h ++ [key] ++ rest = line h
    rw [← hk.line_eq, hp, List.append_assoc]
    rfl
  case mem_processing =>
    intro other
    simp only [Queue.handOut, Std.ExtTreeSet.mem_insert, Std.compare_eq_iff_eq, isOut, Bool.or_eq_true,
      decide_eq_true_iff, hk.mem_processing]
  case owed =>
    intro other
    simp only [isOwed, Bool.and_eq_true, decide_eq_true_iff, hk.owed, hp, List.mem_cons, Queue.handOut]
    constructor
    · rintro ⟨hne, (rfl | hr) | hd⟩
      · exact absurd rfl hne
      · exact .inl hr
      · exact .inr hd
    · rintro (hr | hd)
      · exact ⟨fun heq => hrest (heq ▸ hr), .inl (.inr hr)⟩
      · exact ⟨fun heq => hclean (heq ▸ hd), .inr hd⟩
  case rounds_eq =>
    intro other
    have hrounds := hk.rounds_eq other
    simp only [deliveries, List.count_append, isOwed, rounds, Event.inserted?, reduceCtorEq, false_and, if_false]
    by_cases heq : key = other
    · subst heq
      simpa [howed] using hrounds
    · simpa [heq, List.count_singleton] using hrounds
  case prompted =>
    intro other later earlier heq
    cases later with
    | nil =>
      obtain ⟨hkey, rfl⟩ := List.cons.inj heq
      cases hkey
      exact howed
    | cons _ later => exact hk.prompted other later earlier (List.cons.inj heq).2

/-- A key is given back. -/
theorem done (hk : q.Knows h) (hq : q.Sound) (key : Key) : (q.done key).Knows (.givenBack key :: h) where
  line_eq := by
    show deliveries h ++ (q.done key).pending =
      if isOut key h = true ∧ isOwed key h = true then line h ++ [key] else line h
    by_cases hd : key ∈ q.dirty
    · have hout : isOut key h = true := (hk.mem_processing key).mp (hq.mem_processing key hd)
      rw [done_of_mem_dirty hd, if_pos ⟨hout, (hk.owed key).mpr (.inr hd)⟩, ← hk.line_eq, List.append_assoc]
      rfl
    · have hnot : ¬(isOut key h = true ∧ isOwed key h = true) := by
        rintro ⟨hout, howed⟩
        rcases (hk.owed key).mp howed with hp | hd'
        · exact hq.not_mem_pending key ((hk.mem_processing key).mpr hout) hp
        · exact hd hd'
      rw [done_of_not_mem_dirty hd, if_neg hnot]
      exact hk.line_eq
  mem_processing other := by
    simp only [done_processing, Std.ExtTreeSet.mem_erase, ne_eq, Std.compare_eq_iff_eq, hk.mem_processing, isOut,
      Bool.and_eq_true, decide_eq_true_iff]
  owed other := by
    show isOwed other h = true ↔ _
    rw [hk.owed, mem_pending_done, mem_dirty_done]
    constructor
    · rintro (hp | hd)
      · exact .inl (.inl hp)
      · by_cases heq : other = key
        · exact .inl (.inr ⟨heq, heq ▸ hd⟩)
        · exact .inr ⟨hd, heq⟩
    · rintro ((hp | ⟨rfl, hd⟩) | ⟨hd, -⟩)
      · exact .inl hp
      · exact .inr hd
      · exact .inr hd
  rounds_eq := hk.rounds_eq
  prompted := hk.prompted_cons (by simp)

/-- Whatever is done to a queue, what it knows stays true. The cases are the steps of `Queue.Step`,
and each of them changes one key's part of the history. -/
theorem step (hk : q.Knows h) (hq : q.Sound) (hs : Step q a events r) : r.Knows (events ++ h) := by
  cases hs with
  | added key | addedWith key => exact hk.insert hq rfl
  | addedAtOnce now key => exact (hk.asked key now).insert hq rfl
  | outrun now key delay => exact hk.asked key _
  | timed now key delay => exact (hk.asked key _).congr rfl rfl rfl
  | released key d => exact insert (hk.congr rfl rfl rfl) (hq.dropDelay key d) rfl
  | handedOut ticket take key rest hp => exact hk.handOut hq hp ticket
  | givenBack key => exact hk.done hq key
  | refused | shutAgain => exact hk
  | lapsed | toldClosed | toldToWait | left | shut => exact hk.congr rfl rfl rfl

end Knows

section run

variable {σ : Type}

/-- What a queue knows of its history it knows after any actions, of the longer history. -/
theorem knows_of_actions {s : σ × Queue} {h : History} (hq : s.2.Sound) (hk : s.2.Knows h)
    (actions : List (Action σ)) : (actions.foldl act s).2.Knows (historyFrom s actions ++ h) := by
  induction actions generalizing s h with
  | nil => exact hk
  | cons a actions ih =>
    rw [historyFrom, List.append_assoc]
    exact ih (hq.act a) (hk.step hq (step_of_act hq a))

/-! ## All runs -/

/-- A queue hands out its line, and what is said of it. -/
structure HandsOut (q : Queue) (h : History) : Prop where
  /-- what was handed out, and then what waits, is the line -/
  line_eq : deliveries h ++ q.pending = line h
  /-- a key that is put in is handed out later, unless it still waits or is marked -/
  lossless : ∀ key e later earlier, e.inserted? = some key → h = later ++ e :: earlier →
    .delivered key ∈ later ∨ key ∈ q.pending ∨ key ∈ q.dirty
  /-- however often a key is put in between two deliveries, it is handed out once for it -/
  collapsed : ∀ key, (deliveries h).count key + (if key ∈ q.pending ∨ key ∈ q.dirty then 1 else 0) = rounds key h
  /-- no key is handed out that was not put in since it was handed out last -/
  prompted : ∀ key later earlier, h = later ++ .delivered key :: earlier → isOwed key earlier = true

/-- **A queue hands out its line**: after every run, whoever did what in whatever order, and whether
the queue has been shut or not, the keys that it has handed out, and then those that wait, are the
keys in the order in which they came into the line, which is told by what was seen alone. -/
theorem queue_hands_out_the_line (beside : σ) (actions : List (Action σ)) :
    (run beside actions).2.HandsOut (history beside actions) := by
  have hk : (run beside actions).2.Knows (history beside actions) := by
    have hk := knows_of_actions (s := (beside, {})) sound_empty .empty actions
    rwa [List.append_nil] at hk
  constructor
  case line_eq => exact hk.line_eq
  case lossless =>
    intro key e later earlier he heq
    by_cases hd : .delivered key ∈ later
    · exact .inl hd
    · exact .inr ((hk.owed key).mp (heq ▸ isOwed_of_inserted he hd))
  case collapsed =>
    intro key
    rw [← hk.rounds_eq key]
    congr 1
    by_cases hw : key ∈ (run beside actions).2.pending ∨ key ∈ (run beside actions).2.dirty
    · rw [if_pos hw, (hk.owed key).mpr hw]
      rfl
    · rw [if_neg hw, Bool.eq_false_iff.mpr (mt (hk.owed key).mp hw)]
      rfl
  case prompted => exact hk.prompted

end run

end ControlLoop.Queue
