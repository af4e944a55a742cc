import ControlLoop.Proofs.Daemon.Converge
import ControlLoop.Proofs.Daemon.LastEvent
import ControlLoop.Proofs.Pool.InLine

/-!
# What the lines name

Which keys a daemon triggers is decided by its lines alone: a line counts if it is not blank and
describes an event that takes effect (`event?`), and then the key of the event is triggered
manually, once. Nobody else triggers a key manually, so at every moment the manual triggers that the
pool has accepted are those of the lines so far, in their order, but for a key that is still due
(`Live.Announced`).

If the events are about different keys, each of them is also the last event about its key, so the
objects and what is reported of them can be told from one event each (`verdict_of_nodup`).
-/

namespace ControlLoop

namespace Event

/-- How the attempt on an event is to end: it fails if the specification asks for that. -/
def outcome : Event → Outcome
  | upsert id tenant spec =>
    if (TenantObject.mk id tenant spec).asksForFailure then .failureFinal ("object " ++ id ++ " requested failure")
    else .success
  | delete _ => .success

/-- If the events are about different keys, each of them is the last one about its key. -/
theorem lastAbout?_of_nodup {events : List Event} {e : Event} (hn : (events.map Event.id).Nodup) (he : e ∈ events) :
    lastAbout? e.id events = some e := by
  obtain ⟨before, after, rfl⟩ := List.append_of_mem he
  rw [List.map_append, List.map_cons, List.nodup_append, List.nodup_cons] at hn
  have hbefore : before.filter (·.id = e.id) = [] := by
    refine List.filter_eq_nil_iff.mpr fun other hother heq => ?_
    exact hn.2.2 other.id (List.mem_map_of_mem hother) e.id List.mem_cons_self (by simpa using heq)
  have hafter : after.filter (·.id = e.id) = [] := by
    refine List.filter_eq_nil_iff.mpr fun other hother heq => ?_
    have hid : other.id = e.id := by simpa using heq
    exact hn.2.1.1 (hid ▸ List.mem_map_of_mem hother)
  rw [lastAbout?, List.filter_append, hbefore, List.filter_cons_of_pos (by simp), hafter]
  rfl

end Event

namespace Daemon

/-- The event that a line of input describes, if it is not blank and the event takes effect. -/
def event? (line : String) : Option Event :=
  if (Text.trim line.toList).isEmpty then none else Event.accepted? line

/-- The events that some lines describe, those of them that take effect. -/
def events (lines : List String) : List Event := lines.filterMap event?

theorem events_concat_of_none {lines : List String} {line : String} (h : event? line = none) :
    events (lines ++ [line]) = events lines := by
  rw [events, List.filterMap_append, List.filterMap_cons_none h, List.filterMap_nil, List.append_nil, events]

theorem events_concat_of_some {lines : List String} {line : String} {e : Event} (h : event? line = some e) :
    events (lines ++ [line]) = events lines ++ [e] := by
  rw [events, List.filterMap_append, List.filterMap_cons_some h, List.filterMap_nil, events]

end Daemon

namespace TenantStore

open Daemon

variable {s : TenantStore} {line : String} {lines : List String}

/-- A line is taken if it counts, and then it names the key of its event. -/
theorem Tidy.take?_cases (h : s.Tidy) (line : String) :
    (∃ e t, event? line = some e ∧ s.take? line = some (e.id, t) ∧ t.Tidy ∧
      ∀ key, t.get? key = if e.id = key then e.left? else s.get? key) ∨
    (event? line = none ∧ s.take? line = none) := by
  rw [event?, take?]
  split
  · exact .inr ⟨rfl, rfl⟩
  · rcases h.applyLine_cases line with ⟨e, t, he, happly, ht, hget⟩ | ⟨he, r, happly⟩
    · exact .inl ⟨e, t, he, by rw [happly]; rfl, ht, hget⟩
    · exact .inr ⟨he, by rw [happly]; rfl⟩

/-- The keys that some lines name, and the objects that they leave, as told by their events. -/
theorem takeAll_eq (lines : List String) :
    (takeAll lines).1 = (events lines).map Event.id ∧ (takeAll lines).2.Tidy ∧
      ∀ key, (takeAll lines).2.get? key = (Event.lastAbout? key (events lines)).bind Event.left? := by
  induction lines using List.reverseRecOn with
  | nil => exact ⟨rfl, tidy_empty, fun key => Std.ExtTreeMap.getElem?_empty⟩
  | append_singleton lines line ih =>
    obtain ⟨hnamed, htidy, hget⟩ := ih
    rcases htidy.take?_cases line with ⟨e, t, he, htake, ht, hget'⟩ | ⟨he, htake⟩
    · rw [takeAll_concat_of_some htake, events_concat_of_some he]
      refine ⟨by rw [hnamed, List.map_append, List.map_singleton], ht, fun key => ?_⟩
      rw [Event.lastAbout?_concat]
      refine (hget' key).trans ?_
      split
      · rfl
      · exact hget key
    · rw [takeAll_concat_of_none htake, events_concat_of_none he]
      exact ⟨hnamed, htidy, hget⟩

/-- Of events about different keys, each decides on its own how its key is reconciled. -/
theorem verdict_of_nodup {e : Event} (hn : ((events lines).map Event.id).Nodup) (he : e ∈ events lines) :
    (takeAll lines).2.verdict e.id = e.outcome := by
  obtain ⟨-, -, hget⟩ := takeAll_eq lines
  rw [verdict, hget, Event.lastAbout?_of_nodup hn he]
  cases e <;> rfl

end TenantStore

/-! ## Triggers

The daemon triggers keys manually and the resync does so automatically, so what the input has
brought about can be told from the log of the pool by the kinds alone. -/

/-- The key that was triggered manually, if the notice says so. -/
def Notice.manual? : Notice → Option Key
  | accepted key .manual => some key
  | accepted _ .auto | refused _ | delivered .. | began _ | delayed .. | released _ | recorded _ => none

theorem Notice.manual?_eq_some_iff {n : Notice} {key : Key} : n.manual? = some key ↔ n = accepted key .manual := by
  constructor
  · intro h
    unfold manual? at h
    split at h <;> cases h
    rfl
  · rintro rfl
    rfl

namespace Pool

variable {setup : Setup} {clocks : Clocks} {p q : Pool} {a : Action} {notices : List Notice} {key : Key} {log : Log}

/-- The keys that were triggered manually along a log. -/
def manualIn (log : Log) : List Key := log.filterMap (·.2.manual?)

@[simp] theorem manualIn_append (l₁ l₂ : Log) : manualIn (l₁ ++ l₂) = manualIn l₁ ++ manualIn l₂ :=
  List.filterMap_append

/-- If the resync puts in no key, all triggers are manual. -/
theorem acceptedIn_eq (h : ∀ e ∈ log, ∀ key, e.2 ≠ .accepted key .auto) :
    acceptedIn log = (manualIn log).map (·, Trigger.manual) := by
  rw [acceptedIn, manualIn, List.map_filterMap]
  refine List.filterMap_congr fun e he => ?_
  obtain ⟨t, n⟩ := e
  cases n with
  | accepted key kind =>
    cases kind with
    | manual => rfl
    | auto => exact absurd rfl (h _ he key)
  | _ => rfl

/-- Nobody but a caller triggers a key manually. -/
theorem trigger_of_manual (hact : p.act setup clocks a = some (q, notices)) (hn : .accepted key .manual ∈ notices) :
    a = .trigger key .manual := by
  cases step_of_act hact <;> simp_all

/-- Nobody but the resync triggers a key automatically. -/
theorem resync_of_auto (hact : p.act setup clocks a = some (q, notices)) (hn : .accepted key .auto ∈ notices) :
    a = .trigger key .auto ∨ a = .put key := by
  cases step_of_act hact <;> simp_all

/-- A step that is no manual trigger sets off no manual attempt. -/
theorem manualIn_of_act (hact : p.act setup clocks a = some (q, notices)) (ha : ∀ key, a ≠ .trigger key .manual) :
    manualIn (notices.map (clocks.now, ·)) = [] := by
  refine List.filterMap_eq_nil_iff.mpr fun e he => ?_
  obtain ⟨n, hn, rfl⟩ := List.mem_map.mp he
  refine Option.eq_none_iff_forall_ne_some.mpr fun key hkey => ?_
  exact ha key (trigger_of_manual hact (Notice.manual?_eq_some_iff.mp hkey ▸ hn))

end Pool

namespace Daemon.Live

open TenantStore

variable {setup : Pool.Setup} {clocks : Clocks} {l m : Live} {seen log : List Seen}

/-- The keys that the lines have named have been triggered manually, and nobody triggers another;
the last may still be due. This ties the log of the pool to the log of the lines. -/
def Announced (l : Live) (log : List Seen) : Prop :=
  Pool.manualIn (noticesOf log) ++ l.due.toList = (takeAll (linesOf log)).1

theorem announced_fresh (capacity : Nat) : (fresh capacity).Announced [] := rfl

/-- The pool takes a step that is no manual trigger. -/
theorem Announced.act (h : l.Announced log) {a : Pool.Action} {pool : Pool} {notices : List Notice}
    (hact : l.pool.act setup clocks a = some (pool, notices)) (ha : ∀ key, a ≠ .trigger key .manual)
    (hdue : m.due = l.due) : m.Announced (log ++ notices.map (.notice clocks.now)) := by
  rw [Announced, linesOf_append, noticesOf_append, linesOf_notices, noticesOf_notices, Pool.manualIn_append,
    Pool.manualIn_of_act hact ha, List.append_nil, List.append_nil, hdue]
  exact h

/-- Every move keeps the triggers in step with the lines: a line that counts makes its key due, and
telling the pool is the manual trigger of that key. -/
theorem Announced.turn (h : l.Announced log) (hl : l.Sound setup) (hs : l.store = (takeAll (linesOf log)).2)
    (ht : Turn setup clocks l m seen) : m.Announced (log ++ seen) := by
  cases ht with
  | @passed line hd ht =>
    rw [Announced, linesOf_append, noticesOf_append, linesOf_line, noticesOf_line, takeAll_concat_of_none (hs ▸ ht),
      List.append_nil]
    exact h
  | @took line key store hr hd ht =>
    rw [Announced, linesOf_append, noticesOf_append, linesOf_line, noticesOf_line, takeAll_concat_of_some (hs ▸ ht),
      List.append_nil, ← h, hd, Option.toList_none, List.append_nil]
    rfl
  | @told key pool notices hd hact =>
    obtain ⟨hopen, hphase⟩ := hl.calm.running hl.pool (by simp [hd])
    cases Pool.step_of_act hact with
    | accepted =>
      rw [Announced, linesOf_append, noticesOf_append, linesOf_notices, noticesOf_notices, Pool.manualIn_append,
        List.append_nil, ← h, hd]
      exact List.append_nil _
    | refused hc => simp [hopen, hphase] at hc
  | stopped hd hact => exact h.act hact (by simp) rfl
  | looked =>
    rw [List.append_nil]
    exact h
  | finished hw hf hact => exact h.act hact (by simp) rfl
  | worked ha hact =>
    refine h.act hact ?_ rfl
    rintro key rfl
    cases ha

/-- What the lines have named has been put in before the pool stops, and in the order of the
lines. -/
theorem Announced.manualIn_of_stopped (h : l.Announced log) (hl : l.Sound setup) (hs : l.pool.phase = .stopped) :
    Pool.manualIn (noticesOf log) = (takeAll (linesOf log)).1 := by
  have hdue : l.due = none := by
    by_contra hd
    exact (hl.calm.running hl.pool hd).2 hs
  rw [← h, hdue, Option.toList_none, List.append_nil]

end Daemon.Live

end ControlLoop
