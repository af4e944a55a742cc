import ControlLoop.Proofs.Queue.Drain

/-!
# When delayed keys are put in

A timer that was set is never taken back. When a shorter delay of its key comes up it goes on
running, and is told from the one that counts only by its deadline; and a later delay may even end
at the moment for which the forgotten timer was set. All the same, the delay of a key that ends
first counts, and the key is put in once for it (`soonest_delay_counts`): as long as some delay of a
key was asked for since a timer put it in last, the moment noted is the soonest of those asked for
(`deadlines`), and a timer puts the key in at this moment and at no other.

That timers go off when they are due is an assumption about the clock, not about the queue
(`Punctual`): time does not pass a timer that runs.

The log has every delay that was asked for since the last release (`deadlines`), and the queue only
the soonest of them (`Keeps`). What is left to show is that the timer of that one goes off in time;
that is where `Punctual` comes in, through `InTime`.
-/

namespace ControlLoop.Queue

/-! ## Time

A step comes with its moment. What is asked of the clock is that time does not go back and does not
pass a timer that runs; clients may act at any moment, and timers that are due at the same moment
may go off in any order. -/

/-- What an action needs to be taken at a moment: a delay begins now, and a timer that goes off runs
and is due. -/
def Action.IsAt {σ : Type} (now : Moment) (q : Queue) : Action σ → Prop
  | .addAfter t _ _ => t = now
  | .fire key d => d = now ∧ (key, d) ∈ q.timers
  | .add _ | .addWith .. | .getWith .. | .abandon _ | .done _ | .shutDown => True

/-- No timer is late. -/
def NoneLate (now : Moment) (q : Queue) : Prop := ∀ timer ∈ q.timers, now ≤ timer.2

variable {σ : Type}

/-- The steps are taken from `now` to `last`, and time passes no timer meanwhile. Timers may go off
in any order at their moments, and clients may act in between. -/
def Punctual (last : Moment) : Moment → σ × Queue → List (Moment × Action σ) → Prop
  | now, s, [] => now ≤ last ∧ NoneLate last s.2
  | now, s, (t, a) :: steps => now ≤ t ∧ NoneLate t s.2 ∧ a.IsAt t s.2 ∧ Punctual last t (act s a) steps

instance (now : Moment) (q : Queue) : (a : Action σ) → Decidable (a.IsAt now q)
  | .addAfter t _ _ => inferInstanceAs (Decidable (t = now))
  | .fire key d => inferInstanceAs (Decidable (d = now ∧ (key, d) ∈ q.timers))
  | .add _ | .addWith .. | .getWith .. | .abandon _ | .done _ | .shutDown => inferInstanceAs (Decidable True)

instance (now : Moment) (q : Queue) : Decidable (NoneLate now q) :=
  inferInstanceAs (Decidable (∀ timer ∈ q.timers, now ≤ timer.2))

instance Punctual.decide (last : Moment) :
    (now : Moment) → (s : σ × Queue) → (steps : List (Moment × Action σ)) → Decidable (Punctual last now s steps)
  | now, s, [] => inferInstanceAs (Decidable (now ≤ last ∧ NoneLate last s.2))
  | now, s, (t, a) :: steps =>
    have := Punctual.decide last t (act s a) steps
    inferInstanceAs (Decidable (now ≤ t ∧ NoneLate t s.2 ∧ a.IsAt t s.2 ∧ Punctual last t (act s a) steps))

/-- Events with their moments, the newest first. -/
abbrev Log := List (Moment × Event)

/-- Events that are seen at a moment. -/
def seenAt (now : Moment) (events : History) : Log := events.map (now, ·)

/-- What is seen along the steps, the newest first. -/
def logFrom : σ × Queue → List (Moment × Action σ) → Log
  | _, [] => []
  | s, (t, a) :: steps => logFrom (act s a) steps ++ seenAt t (eventsOf s a)

/-- The moments for which the key was asked to be put in later since a timer put it in last. -/
def deadlines (key : Key) : Log → List Moment
  | [] => []
  | (t, .asked k d) :: earlier => if k = key ∧ t < d then d :: deadlines key earlier else deadlines key earlier
  | (_, .released k) :: earlier => if k = key then [] else deadlines key earlier
  | _ :: earlier => deadlines key earlier

/-! ## What the queue knows of the delays

`Keeps` ties the table of delays to the log: the moment that is noted for a key is the least of its
`deadlines`. A delay that is asked for adds to both, and the timer that counts empties both; no
other action touches them. Beside this it is kept of the past that timers have put keys in at such
moments only. -/

variable {q r : Queue} {log earlier later : Log} {events : History} {a : Action σ} {now last t d : Moment}
  {key other : Key} {e : Event}

/-- What is seen now asks for a deadline that lies ahead, or for none. -/
theorem mem_deadlines_cons (h : d ∈ deadlines key ((now, e) :: log)) : d ∈ deadlines key log ∨ now < d := by
  cases e with
  | asked k d' =>
    rw [deadlines] at h
    split at h
    · next hand =>
      rcases List.mem_cons.mp h with rfl | h
      · exact .inr hand.2
      · exact .inl h
    · exact .inl h
  | released k =>
    rw [deadlines] at h
    split at h
    · cases h
    · exact .inl h
  | added | delivered | givenBack => exact .inl h

/-- The queue knows which delay of a key ends first, and timers have put keys in at such moments
only. The log is all that the statement looks at besides the queue. -/
structure Keeps (now : Moment) (q : Queue) (log : Log) : Prop where
  /-- the moment noted is the soonest that was asked for -/
  delayed_eq : ∀ key : Key, q.delayed[key]? = (deadlines key log).min?
  /-- nothing was seen in the future -/
  le_now : ∀ t e, (t, e) ∈ log → t ≤ now
  /-- what was asked for since a timer put the key in was still to come then -/
  lt_deadline : ∀ key t d, (t, .released key) ∈ log → d ∈ deadlines key log → t < d
  /-- a timer puts a key in at the soonest moment that was asked for -/
  released_at : ∀ key t earlier, (t, .released key) :: earlier <:+ log → (deadlines key earlier).min? = some t
  /-- timers put a key in only once at a moment -/
  released_once : ∀ key t earlier, (t, .released key) :: earlier <:+ log → (t, .released key) ∉ earlier

namespace Keeps

/-- An empty queue keeps no delays, and none were asked for. -/
theorem empty : Keeps 0 {} [] where
  delayed_eq := by simp [deadlines]
  le_now := by simp
  lt_deadline := by simp
  released_at := by simp
  released_once := by simp

/-- Time passes, and something changes that has nothing to do with delays. -/
theorem congr (hk : Keeps now q log) (ht : now ≤ t) (hd : r.delayed = q.delayed) : Keeps t r log where
  delayed_eq := hd ▸ hk.delayed_eq
  le_now u e he := Nat.le_trans (hk.le_now u e he) ht
  lt_deadline := hk.lt_deadline
  released_at := hk.released_at
  released_once := hk.released_once

theorem le_now_cons (hk : Keeps now q log) (e : Event) (t : Moment) (f : Event) (hf : (t, f) ∈ (now, e) :: log) :
    t ≤ now := by
  rcases List.mem_cons.mp hf with heq | hf
  · exact Nat.le_of_eq (Prod.mk.inj heq).1
  · exact hk.le_now t f hf

/-- An event that ends no delay: what is noted has to be the soonest of what was asked for, and the
past stays. -/
theorem cons (hk : Keeps now q log) (hrel : ∀ k, e ≠ .released k)
    (hd : ∀ key : Key, r.delayed[key]? = (deadlines key ((now, e) :: log)).min?) : Keeps now r ((now, e) :: log) := by
  have hpast : ∀ key t earlier, (t, .released key) :: earlier <:+ (now, e) :: log →
      (t, .released key) :: earlier <:+ log := by
    intro key t earlier hs
    rcases List.suffix_cons_iff.mp hs with heq | hs
    · exact absurd (Prod.mk.inj (List.cons.inj heq).1).2.symm (hrel key)
    · exact hs
  constructor
  case delayed_eq => exact hd
  case le_now => exact hk.le_now_cons e
  case lt_deadline =>
    intro key t d ht hd
    have ht : (t, .released key) ∈ log := by
      rcases List.mem_cons.mp ht with heq | ht
      · exact absurd (Prod.mk.inj heq).2.symm (hrel key)
      · exact ht
    rcases mem_deadlines_cons hd with hd | hlt
    · exact hk.lt_deadline key t d ht hd
    · exact Nat.lt_of_le_of_lt (hk.le_now t _ ht) hlt
  case released_at => exact fun key t earlier hs => hk.released_at key t earlier (hpast key t earlier hs)
  case released_once => exact fun key t earlier hs => hk.released_once key t earlier (hpast key t earlier hs)

theorem askedNow (hk : Keeps now q log) (key : Key) : Keeps now q ((now, .asked key now) :: log) := by
  refine hk.cons (by simp) fun other => ?_
  rw [deadlines, if_neg fun hand => Nat.lt_irrefl now hand.2]
  exact hk.delayed_eq other

/-- A key is asked to be put in later. What is noted then is this moment, or the one noted before if
it is sooner. -/
theorem asked (hk : Keeps now q log) (hlt : now < d)
    (hd : r.delayed[key]? = some ((q.delayed[key]?).elim d (min d)))
    (hother : ∀ other, other ≠ key → r.delayed[other]? = q.delayed[other]?) :
    Keeps now r ((now, .asked key d) :: log) := by
  refine hk.cons (by simp) fun other => ?_
  by_cases heq : key = other
  · subst heq
    rw [hd, deadlines, if_pos ⟨rfl, hlt⟩, List.min?_cons, hk.delayed_eq]
  · rw [hother other (Ne.symm heq), deadlines, if_neg fun hand => heq hand.1, hk.delayed_eq]

/-- The timer that counts goes off. -/
theorem released (hk : Keeps now q log) (hnow : q.delayed[key]? = some now)
    (hd : ∀ other : Key, r.delayed[other]? = if key = other then none else q.delayed[other]?) :
    Keeps now r ((now, .released key) :: log) := by
  have hfirst : (deadlines key log).min? = some now := (hk.delayed_eq key).symm.trans hnow
  constructor
  case delayed_eq =>
    intro other
    rw [hd, deadlines]
    split
    · rfl
    · exact hk.delayed_eq other
  case le_now => exact hk.le_now_cons _
  case lt_deadline =>
    intro other t d ht hd
    rw [deadlines] at hd
    split at hd
    · cases hd
    · next hne =>
      rcases List.mem_cons.mp ht with heq | ht
      · cases heq
        exact absurd rfl hne
      · exact hk.lt_deadline other t d ht hd
  case released_at =>
    intro other t earlier hs
    rcases List.suffix_cons_iff.mp hs with heq | hs
    · cases heq
      exact hfirst
    · exact hk.released_at other t earlier hs
  case released_once =>
    intro other t earlier hs
    rcases List.suffix_cons_iff.mp hs with heq | hs
    · cases heq
      intro hmem
      -- what is due now was asked for after that
      exact Nat.lt_irrefl now (hk.lt_deadline key now now hmem (List.min?_mem hfirst))
    · exact hk.released_once other t earlier hs

/-- What a queue knows of the delays stays true, as long as it is not shut. -/
theorem step (hk : Keeps now q log) (ha : a ≠ .shutDown) (hat : a.IsAt now q) (hs : Step q a events r) :
    Keeps now r (seenAt now events ++ log) := by
  cases hs with
  | added key | addedWith key => exact hk.cons (by simp) fun other => (insert_delayed q key).symm ▸ hk.delayed_eq other
  | givenBack key => exact hk.cons (by simp) fun other => (done_delayed q key).symm ▸ hk.delayed_eq other
  | handedOut ticket take key rest => exact hk.cons (by simp) hk.delayed_eq
  | addedAtOnce t key =>
    obtain rfl : t = now := hat
    exact (hk.askedNow key).cons (by simp) fun other => (insert_delayed q key).symm ▸ (hk.askedNow key).delayed_eq other
  | outrun t key delay d ho hpos hd hle =>
    obtain rfl : t = now := hat
    refine hk.asked (Nat.lt_add_of_pos_right hpos) ?_ fun _ _ => rfl
    rw [hd, Option.elim_some, Nat.min_eq_right hle]
  | timed t key delay ho hpos hd =>
    obtain rfl : t = now := hat
    refine hk.asked (Nat.lt_add_of_pos_right hpos) ?_ fun other hne => ?_
    · rw [setTimer, Std.ExtTreeMap.getElem?_insert_self]
      cases hn : q.delayed[key]? with
      | none => rfl
      | some d => rw [Option.elim_some, Nat.min_eq_left (Nat.le_of_lt (hd d hn))]
    · rw [setTimer, Std.ExtTreeMap.getElem?_insert, if_neg fun heq => hne (Std.compare_eq_iff_eq.mp heq).symm]
  | released key d ho hd =>
    obtain rfl : d = now := hat.1
    refine hk.released hd fun other => ?_
    simp only [insert_delayed, Std.ExtTreeMap.getElem?_erase, Std.compare_eq_iff_eq]
  | refused | lapsed | toldClosed | toldToWait | left | shutAgain => exact hk.congr (Nat.le_refl now) rfl
  | shut => exact absurd rfl ha

end Keeps

/-! ## What becomes of a delay

A delay is followed from the moment at which it was asked for. Either its key has been put in by a
timer since, or the moment noted for the key is no later than its deadline. The moment noted becomes
sooner, never later, until the timer goes off, so this is not lost on the way (`DoneBy.step`). -/

/-- What was asked at the moment `t` is done by the moment `d`: the key has been put in since, or it
is noted for a moment no later than `d`. -/
def DoneBy (t d : Moment) (key : Key) (q : Queue) (later : Log) : Prop :=
  (∃ m e, (m, e) ∈ later ∧ e.inserted? = some key ∧ t ≤ m ∧ m ≤ d) ∨ ∃ m, q.delayed[key]? = some m ∧ m ≤ d

namespace DoneBy

/-- What has been done stays done, and what is noted is not put off. -/
theorem step (h : DoneBy t d key q later) (ht : t ≤ now) (ha : a ≠ .shutDown) (hat : a.IsAt now q)
    (hs : Step q a events r) : DoneBy t d key r (seenAt now events ++ later) := by
  rcases h with ⟨m, e, hmem, he, hle⟩ | ⟨m, hm, hle⟩
  · exact .inl ⟨m, e, List.mem_append_right _ hmem, he, hle⟩
  have hstay : r.delayed = q.delayed → DoneBy t d key r (seenAt now events ++ later) :=
    fun heq => .inr ⟨m, heq ▸ hm, hle⟩
  cases hs with
  | added k | addedWith k | addedAtOnce _ k => exact hstay (insert_delayed q k)
  | givenBack k => exact hstay (done_delayed q k)
  | timed u k delay ho hpos hd =>
    right
    by_cases heq : k = key
    · subst heq
      exact ⟨u + delay.nanos, by simp [setTimer], Nat.le_trans (Nat.le_of_lt (hd m hm)) hle⟩
    · exact ⟨m, by simp [setTimer, Std.ExtTreeMap.getElem?_insert, heq, hm], hle⟩
  | released k u ho hd =>
    obtain rfl : u = now := hat.1
    by_cases heq : k = key
    · subst heq
      obtain rfl : u = m := Option.some.inj (hd.symm.trans hm)
      exact .inl ⟨u, .released k, List.mem_cons_self, rfl, ht, hle⟩
    · exact .inr ⟨m, by simp [Std.ExtTreeMap.getElem?_erase, heq, hm], hle⟩
  | refused | outrun | lapsed | handedOut | toldClosed | toldToWait | left | shutAgain => exact hstay rfl
  | shut => exact absurd rfl ha

/-- What is asked is done at once, or is noted. -/
theorem of_asked (hat : a.IsAt now q) (hs : Step q a events r)
    (h : seenAt now events = later ++ (t, .asked key d) :: earlier) : DoneBy t d key r later := by
  have hmem : (t, .asked key d) ∈ seenAt now events := h ▸ List.mem_append_right _ List.mem_cons_self
  cases hs with
  | addedAtOnce u k =>
    obtain rfl : u = now := hat
    obtain ⟨rfl, rfl, rfl⟩ : t = u ∧ key = k ∧ d = u := by simpa [seenAt] using hmem
    refine .inl ⟨d, .added key, ?_, rfl, Nat.le_refl d, Nat.le_refl d⟩
    -- the first of the two events is no asking, so it came after it
    cases later with
    | nil => cases h
    | cons e later =>
      obtain rfl : (d, .added key) = e := (List.cons.inj h).1
      exact List.mem_cons_self
  | outrun u k delay m ho hpos hm hle =>
    obtain rfl : u = now := hat
    obtain ⟨rfl, rfl, rfl⟩ : t = u ∧ key = k ∧ d = u + delay.nanos := by simpa [seenAt] using hmem
    exact .inr ⟨m, hm, hle⟩
  | timed u k delay ho hpos hd =>
    obtain rfl : u = now := hat
    obtain ⟨rfl, rfl, rfl⟩ : t = u ∧ key = k ∧ d = u + delay.nanos := by simpa [seenAt] using hmem
    exact .inr ⟨_, by simp [setTimer], Nat.le_refl _⟩
  | _ => simp [seenAt] at hmem

end DoneBy

/-- All that was asked is done in time. -/
def InTime (q : Queue) (log : Log) : Prop :=
  ∀ key t d later earlier, log = later ++ (t, .asked key d) :: earlier → DoneBy t d key q later

/-- Every action leaves the delays in time. A delay in the log was either there before, and then it
is done by or still running as before; or it was asked for just now. -/
theorem InTime.step (h : InTime q log) (hk : Keeps now q log) (ha : a ≠ .shutDown) (hat : a.IsAt now q)
    (hs : Step q a events r) : InTime r (seenAt now events ++ log) := by
  intro key t d later earlier heq
  have hold : ∀ newer, log = newer ++ (t, .asked key d) :: earlier → DoneBy t d key r (seenAt now events ++ newer) := by
    rintro newer rfl
    have ht : t ≤ now := hk.le_now t _ (List.mem_append_right _ List.mem_cons_self)
    exact (h key t d newer earlier rfl).step ht ha hat hs
  -- the delay stands in the old part of the log, or among what was seen just now
  rcases List.append_eq_append_iff.mp heq with ⟨newer, rfl, hlog⟩ | ⟨rest, hseen, hrest⟩
  · exact hold newer hlog
  · cases rest with
    | nil =>
      rw [List.append_nil] at hseen
      have hdone := hold [] hrest.symm
      rwa [List.append_nil, hseen] at hdone
    | cons e rest =>
      obtain ⟨rfl, -⟩ := List.cons.inj hrest
      exact DoneBy.of_asked hat hs hseen

/-! ## All runs

What is noted is the moment of a timer that runs, by `Queue.Sound`, and time passes no timer, so no
moment that is noted has passed (`Sound.le_of_delayed`). With this the invariants go along the steps
together (`keeps_of_steps`). -/

/-- Where no timer is late, no moment that is noted has passed. -/
theorem Sound.le_of_delayed {m : Moment} (hq : q.Sound) (hl : NoneLate now q) (hm : q.delayed[key]? = some m) :
    now ≤ m :=
  hl (key, m) (hq.mem_timers key m hm)

/-- Along all steps, as long as the queue is not shut and the timers are punctual, the queue keeps
the soonest deadlines, everything that was asked for is in time, and no timer is late. -/
theorem keeps_of_steps {s : σ × Queue} {steps : List (Moment × Action σ)} (hq : s.2.Sound) (hk : Keeps now s.2 log)
    (ht : InTime s.2 log) (hopen : .shutDown ∉ steps.map (·.2)) (hp : Punctual last now s steps) :
    Keeps last ((steps.map (·.2)).foldl act s).2 (logFrom s steps ++ log) ∧
      InTime ((steps.map (·.2)).foldl act s).2 (logFrom s steps ++ log) ∧
      NoneLate last ((steps.map (·.2)).foldl act s).2 := by
  induction steps generalizing now s log with
  | nil => exact ⟨hk.congr hp.1 rfl, ht, hp.2⟩
  | cons step steps ih =>
    obtain ⟨t, a⟩ := step
    obtain ⟨hle, -, hat, hp⟩ := hp
    obtain ⟨ha, hopen⟩ := not_or.mp (mt List.mem_cons.mpr hopen)
    have hstep := step_of_act hq a
    have hk := hk.congr hle rfl
    rw [logFrom, List.append_assoc]
    exact ih (hq.act a) (hk.step (Ne.symm ha) hat hstep) (ht.step hk (Ne.symm ha) hat hstep) hopen hp

/-- The soonest of the delays of a key counts, and counts once: the key is noted for the soonest
deadline since it was last put in by a timer, and is put in at that moment, within the delay that
was asked for. -/
structure SoonestCounts (now : Moment) (q : Queue) (log : Log) : Prop where
  /-- a key is noted if some delay of it was asked for since a timer put it in last, for the soonest
  moment asked for -/
  delayed_eq : ∀ key : Key, q.delayed[key]? = (deadlines key log).min?
  /-- this moment has not passed -/
  not_passed : ∀ key m, (deadlines key log).min? = some m → now ≤ m
  /-- a timer puts a key in at the soonest moment that was asked for, and at no other -/
  released_at : ∀ key t earlier, (t, .released key) :: earlier <:+ log → (deadlines key earlier).min? = some t
  /-- timers put a key in only once at a moment, though more than one may go off -/
  released_once : ∀ key t earlier, (t, .released key) :: earlier <:+ log → (t, .released key) ∉ earlier
  /-- what is asked at the moment `t` for the moment `d` is done between these; or it is noted
  still, and time has not passed `d` -/
  in_time : ∀ key t d later earlier, log = later ++ (t, .asked key d) :: earlier →
    (∃ m e, (m, e) ∈ later ∧ e.inserted? = some key ∧ t ≤ m ∧ m ≤ d) ∨
    ∃ m, q.delayed[key]? = some m ∧ now ≤ m ∧ m ≤ d

/-- **The soonest delay counts**: after every run of a queue that is not shut, in which timers go
off at their deadlines, each key is noted for the soonest of the moments for which it was asked to
be put in since a timer did so last; a timer puts it in at that moment and at no other, and only
once, be there ever so many timers for it; so it is put in by each moment for which this was
asked. -/
theorem soonest_delay_counts (beside : σ) (steps : List (Moment × Action σ)) (last : Moment)
    (hopen : .shutDown ∉ steps.map (·.2)) (hp : Punctual last 0 (beside, {}) steps) :
    SoonestCounts last (run beside (steps.map (·.2))).2 (logFrom (beside, {}) steps) := by
  have hnone : InTime {} [] := by simp [InTime]
  have hsound := sound_of_actions beside (steps.map (·.2))
  obtain ⟨hk, ht, hlate⟩ := keeps_of_steps (s := (beside, {})) sound_empty .empty hnone hopen hp
  rw [List.append_nil] at hk ht
  constructor
  case delayed_eq => exact hk.delayed_eq
  case not_passed => exact fun key m hm => hsound.le_of_delayed hlate ((hk.delayed_eq key).trans hm)
  case released_at => exact hk.released_at
  case released_once => exact hk.released_once
  case in_time =>
    intro key t d later earlier heq
    refine (ht key t d later earlier heq).imp_right ?_
    rintro ⟨m, hm, hle⟩
    exact ⟨m, hm, hsound.le_of_delayed hlate hm, hle⟩

/-- Two delays of a key are asked for, the longer one first, and once the shorter one has ended
another one, which ends when the longer one would have. Both timers go off at that moment, and the
key is put in once. -/
theorem soonest_delay_counts_of_forgotten_timer :
    ∃ (steps : List (Moment × Action Unit)), .shutDown ∉ steps.map (·.2) ∧ Punctual 150 0 ((), {}) steps ∧
      SoonestCounts 150 (run () (steps.map (·.2))).2 (logFrom ((), {}) steps) ∧
      logFrom ((), {}) steps = [(100, .released "a"), (60, .asked "a" 100), (50, .givenBack "a"), (50, .delivered "a"),
        (50, .released "a"), (0, .asked "a" 50), (0, .asked "a" 100)] := by
  let steps : List (Moment × Action Unit) :=
    [(0, .addAfter 0 "a" (Span.ofNanos 100)), (0, .addAfter 0 "a" (Span.ofNanos 50)), (50, .fire "a" 50),
      (50, .getWith 0 fun _ u => u), (50, .done "a"), (60, .addAfter 60 "a" (Span.ofNanos 40)), (100, .fire "a" 100),
      (100, .fire "a" 100)]
  have hopen : .shutDown ∉ steps.map (·.2) := by simp [steps]
  have hp : Punctual 150 0 ((), {}) steps := by decide +kernel
  exact ⟨steps, hopen, hp, soonest_delay_counts () steps 150 hopen hp, by decide +kernel⟩

end ControlLoop.Queue
