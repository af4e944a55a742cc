import ControlLoop.Proofs.Pool.Sound
import ControlLoop.Proofs.Pool.Standing

/-!
# One key among many

How things stand with a key in a pool (`Pool.standing`), and what a step of the pool makes of it. A
step either leaves a key alone, and then says nothing about it, or does one of the things that can
happen to a key (`Standing.Step`). So every run of a sound pool is for each key a path
(`path_of_run`), and its log is, as far as it is about the key, the log of the path.

For each part of the state there is a lemma that says what a change of it makes of a standing: of
the standing of the same key, and of that of another one, which stays as it is
(`Sound.standing_insert_self`, `Sound.standing_insert_of_ne`, `standing_moveTo_of_ne` and so on).
Where both are one statement it is made with an `if`. The lemmas that begin with `turn_of` put these
together, one for each outcome of a step, and `turn_of_act` for all of them.
-/

namespace ControlLoop.Pool

/-- Where a key is: with the worker that holds it, else in the queue, else nowhere. -/
def place (p : Pool) (key : Key) : Place :=
  match p.seat key with
  | some stage => .held stage (key ∈ p.queue.dirty)
  | none => if key ∈ p.queue.pending then .waiting else .resting

/-- How things stand with a key: all that the queue, the workers and the tables of the pool say
about it. -/
def standing (p : Pool) (key : Key) : Standing :=
  ⟨p.place key, p.queue.delayed[key]?, p.accounts[key]?, p.kinds[key]?, p.queue.closed⟩

variable {setup : Setup} {clocks : Clocks} {p q : Pool} {i : Nat} {old new : Stage} {key k : Key}

theorem standing_fresh (capacity : Nat) (key : Key) : (fresh capacity).standing key = .untouched := by
  simp [standing, place, seat, fresh, Standing.untouched]

theorem place_fresh (capacity : Nat) (key : Key) : (fresh capacity).place key = .resting :=
  congrArg Standing.place (standing_fresh capacity key)

/-! ## Where a key is

`place` asks for a worker that holds the key before it looks into the queue. In a sound pool the
order does not matter, since a key that waits is held by nobody (`Sound.seat_eq_none`). -/

/-- Where a key is depends on who holds it, whether it is marked and whether it waits, and on
nothing else. -/
theorem place_congr (hs : q.seat key = p.seat key) (hd : key ∈ q.queue.dirty ↔ key ∈ p.queue.dirty)
    (hp : key ∈ q.queue.pending ↔ key ∈ p.queue.pending) : q.place key = p.place key := by
  simp only [place, hs, hd, hp]

/-- A key with a holder is with the holder; the mark says whether it came again. -/
theorem place_of_seat (h : p.seat key = some old) : p.place key = .held old (key ∈ p.queue.dirty) := by
  rw [place, h]

theorem place_of_pending (h : p.seat key = none) (hp : key ∈ p.queue.pending) : p.place key = .waiting := by
  rw [place, h]
  exact if_pos hp

theorem place_of_not_pending (h : p.seat key = none) (hp : key ∉ p.queue.pending) : p.place key = .resting := by
  rw [place, h]
  exact if_neg hp

/-- Whoever is said to hold a key does hold it. -/
theorem seat_of_place {again : Bool} (h : p.place key = .held old again) : p.seat key = some old := by
  unfold place at h
  split at h
  · next stage hs =>
    cases h
    exact hs
  · split at h <;> cases h

/-- When all workers have left, none holds a key. -/
theorem place_ne_held (he : ∀ s ∈ p.workers, s = .exited) (key : Key) (stage : Stage) (again : Bool) :
    p.place key ≠ .held stage again := by
  have hseat : p.seat key = none := by
    rw [seat, List.find?_eq_none]
    intro s hs
    rw [he s hs]
    simp [Stage.key?]
  by_cases hp : key ∈ p.queue.pending
  · rw [place_of_pending hseat hp]
    rintro ⟨⟩
  · rw [place_of_not_pending hseat hp]
    rintro ⟨⟩

namespace Sound

/-- In a sound pool only one worker holds a key, so the key is found with any worker that has it. -/
theorem place_of_holder (h : p.Sound setup) (hw : p.workers[i]? = some old) (hk : old.key? = some key) :
    p.place key = .held old (key ∈ p.queue.dirty) :=
  place_of_seat (seat_eq_some h.nodup_held hw hk)

theorem seat_eq_none (h : p.Sound setup) (hp : key ∈ p.queue.pending) : p.seat key = none := by
  rw [seat_eq_none_iff, ← h.mem_processing]
  exact fun hout => h.queue.not_mem_pending key hout hp

theorem place_of_pending (h : p.Sound setup) (hp : key ∈ p.queue.pending) : p.place key = .waiting :=
  Pool.place_of_pending (h.seat_eq_none hp) hp

/-- A key that is put in waits, or is marked if a worker holds it. -/
theorem place_insert_self (h : p.Sound setup) :
    ({ p with queue := p.queue.insert key } : Pool).place key = (p.place key).insert := by
  have hseat : ({ p with queue := p.queue.insert key } : Pool).seat key = p.seat key := seat_congr rfl
  cases hs : p.seat key with
  | none =>
    have hout : key ∉ p.queue.processing := by
      rw [h.mem_processing, ← seat_eq_none_iff]
      exact hs
    have hwait : key ∈ (p.queue.insert key).pending := h.queue.mem_pending_insert.mpr (.inr ⟨rfl, hout⟩)
    rw [Pool.place_of_pending (hseat.trans hs) hwait]
    -- nobody holds the key, so it waits now, whether it did before or not
    by_cases hp : key ∈ p.queue.pending
    · rw [Pool.place_of_pending hs hp]
      rfl
    · rw [place_of_not_pending hs hp]
      rfl
  | some stage =>
    have hout : key ∈ p.queue.processing :=
      (h.mem_processing key).mpr (mem_held.mpr ⟨stage, mem_of_seat hs⟩)
    have hdirty : key ∈ (p.queue.insert key).dirty := Queue.mem_dirty_insert.mpr (.inr ⟨rfl, hout⟩)
    rw [place_of_seat (hseat.trans hs), place_of_seat hs]
    simp only [hdirty, decide_true]
    rfl

/-- No other key notices that a key is put in. -/
theorem place_insert_of_ne (h : p.Sound setup) (hk : k ≠ key) :
    ({ p with queue := p.queue.insert k } : Pool).place key = p.place key := by
  refine place_congr (seat_congr rfl) ?_ ?_
  · rw [Queue.mem_dirty_insert]
    exact or_iff_left fun hkey => hk hkey.1.symm
  · rw [h.queue.mem_pending_insert]
    exact or_iff_left fun hkey => hk hkey.1.symm

end Sound

/-! ## How things stand with a key that is put in

To put a key in changes its place, and to trigger it notes beside that what has set it off. Nothing
happens to other keys. So each change has a lemma on the key itself (`_self`) and one on all others
(`_of_ne`). -/

/-- A key that is put in is in another place, and nothing else about it changes. -/
theorem Sound.standing_insert_self (h : p.Sound setup) (key : Key) :
    ({ p with queue := p.queue.insert key } : Pool).standing key =
      { p.standing key with place := (p.standing key).place.insert } := by
  rw [standing, h.place_insert_self]
  simp only [Queue.insert_delayed, Queue.insert_closed]
  rfl

/-- How things stand with any other key does not change. -/
theorem Sound.standing_insert_of_ne (h : p.Sound setup) (hk : k ≠ key) :
    ({ p with queue := p.queue.insert k } : Pool).standing key = p.standing key := by
  rw [standing, h.place_insert_of_ne hk]
  simp only [Queue.insert_delayed, Queue.insert_closed]
  rfl

/-- A key that is triggered is put in, and what sets its next delivery off is noted. -/
theorem Sound.standing_accept_self (h : p.Sound setup) (kind : Trigger) :
    (p.accept key kind).standing key =
      { p.standing key with
        place := (p.standing key).place.insert, kind := some (outweigh kind (p.standing key).kind) } := by
  have hins := h.standing_insert_self key
  rw [standing, Standing.mk.injEq] at hins
  rw [standing, Standing.mk.injEq]
  refine ⟨hins.1, hins.2.1, hins.2.2.1, ?_, hins.2.2.2.2⟩
  rw [Pool.accept, Std.ExtTreeMap.getElem?_insert_self]
  rfl

/-- How things stand with any other key does not change. -/
theorem Sound.standing_accept_of_ne (h : p.Sound setup) (hk : k ≠ key) (kind : Trigger) :
    (p.accept k kind).standing key = p.standing key := by
  have hins := h.standing_insert_of_ne hk
  rw [standing, Standing.mk.injEq] at hins
  rw [standing, Standing.mk.injEq]
  refine ⟨hins.1, hins.2.1, hins.2.2.1, ?_, hins.2.2.2.2⟩
  rw [Pool.accept, Std.ExtTreeMap.getElem?_insert, if_neg (mt Std.compare_eq_iff_eq.mp hk)]
  rfl

/-! ## How things stand with the key of a worker

A worker that moves changes the place of the key that it holds, and may change an entry of a table
on the way, which is one part of the standing of one key. What becomes of the standing of a key when
the entry of some key changes is said with an `if` on whether they are the same. -/

/-- A worker that moves without the key, before and after, leaves the key alone. -/
theorem standing_moveTo_of_ne (hw : p.workers[i]? = some old) (ho : old.key? ≠ some key) (hk : new.key? ≠ some key) :
    (p.moveTo i new).standing key = p.standing key := by
  have hplace : (p.moveTo i new).place key = p.place key :=
    place_congr (seat_moveTo_of_ne hw ho hk) Iff.rfl Iff.rfl
  rw [standing, hplace]
  rfl

/-- A worker that moves on takes its key with it. -/
theorem Sound.standing_moveTo_self (h : p.Sound setup) (hw : p.workers[i]? = some old) (ho : old.key? = some key)
    (hk : new.key? = some key) :
    (p.moveTo i new).standing key = { p.standing key with place := .held new (key ∈ p.queue.dirty) } := by
  have hseat : (p.moveTo i new).seat key = some new :=
    seat_moveTo_self hw ((held_moveTo_of_eq hw (hk.trans ho.symm)).nodup_iff.mpr h.nodup_held) hk
  rw [standing, place_of_seat hseat]
  rfl

/-- An account that is closed is that of one key. -/
theorem standing_erase_account (p : Pool) (k key : Key) :
    ({ p with accounts := p.accounts.erase k } : Pool).standing key =
      { p.standing key with account := if k = key then none else (p.standing key).account } := by
  show Standing.mk (p.place key) p.queue.delayed[key]? (p.accounts.erase k)[key]? p.kinds[key]? p.queue.closed = _
  simp only [Std.ExtTreeMap.getElem?_erase, Std.compare_eq_iff_eq]
  rfl

/-- An account that is opened or raised is that of one key. -/
theorem standing_insert_account (p : Pool) (k key : Key) (account : Account) :
    ({ p with accounts := p.accounts.insert k account } : Pool).standing key =
      { p.standing key with account := if k = key then some account else (p.standing key).account } := by
  show Standing.mk (p.place key) p.queue.delayed[key]? (p.accounts.insert k account)[key]? p.kinds[key]?
    p.queue.closed = _
  simp only [Std.ExtTreeMap.getElem?_insert, Std.compare_eq_iff_eq]
  rfl

/-- A kind that is kept gives way to one that is there. -/
theorem standing_keep_kind (p : Pool) (k key : Key) (kind : Trigger) :
    ({ p with kinds := p.kinds.insertIfNew k kind } : Pool).standing key =
      { p.standing key with
        kind := if k = key then some ((p.standing key).kind.getD kind) else (p.standing key).kind } := by
  have hkinds : (p.kinds.insertIfNew k kind)[key]? =
      if k = key then some (p.kinds[key]?.getD kind) else p.kinds[key]? := by
    simp only [Std.ExtTreeMap.getElem?_insertIfNew, Std.compare_eq_iff_eq]
    by_cases hk : k = key
    · subst hk
      by_cases hmem : k ∈ p.kinds
      · simp [hmem]
      · simp [hmem]
    · simp [hk]
  show Standing.mk (p.place key) p.queue.delayed[key]? p.accounts[key]? (p.kinds.insertIfNew k kind)[key]?
    p.queue.closed = _
  rw [hkinds]
  rfl

/-- The account of a key is closed for good, and with it goes what would have set its next delivery
off. -/
theorem standing_close_account (p : Pool) (k key : Key) :
    ({ p with accounts := p.accounts.erase k, kinds := p.kinds.erase k } : Pool).standing key =
      { p.standing key with
        account := if k = key then none else (p.standing key).account,
        kind := if k = key then none else (p.standing key).kind } := by
  show Standing.mk (p.place key) p.queue.delayed[key]? (p.accounts.erase k)[key]? (p.kinds.erase k)[key]?
    p.queue.closed = _
  simp only [Std.ExtTreeMap.getElem?_erase, Std.compare_eq_iff_eq]
  rfl

/-- A delay that is forgotten is that of one key; which timers are left running does not show. -/
theorem standing_drop_delay (p : Pool) (k key : Key) (timers : List (Key × Moment)) :
    ({ p with queue := { p.queue with timers, delayed := p.queue.delayed.erase k } } : Pool).standing key =
      { p.standing key with delayed := if k = key then none else (p.standing key).delayed } := by
  show Standing.mk (p.place key) (p.queue.delayed.erase k)[key]? p.accounts[key]? p.kinds[key]? p.queue.closed = _
  simp only [Std.ExtTreeMap.getElem?_erase, Std.compare_eq_iff_eq]
  rfl

/-- A timer that is set is that of one key. -/
theorem standing_set_timer (p : Pool) (k key : Key) (m : Moment) :
    ({ p with queue := p.queue.setTimer k m } : Pool).standing key =
      { p.standing key with delayed := if k = key then some m else (p.standing key).delayed } := by
  show Standing.mk (p.place key) (p.queue.delayed.insert k m)[key]? p.accounts[key]? p.kinds[key]? p.queue.closed = _
  simp only [Std.ExtTreeMap.getElem?_insert, Std.compare_eq_iff_eq]
  rfl

/-! ## What a step makes of a key

A step of the pool is about one key at most, but for the shutting of the queue and the forgetting of
the kinds, which happen to all keys at once. For the key that it is about it is one clause of
`Standing.Step` (`turn_of_step`); for the others nothing changes, and none of the notices is about
them (`turn_of_eq`). For a worker that moves on with its key both are shown by
`Sound.turn_of_moveTo`, which asks only for what has changed in the tables. -/

/-- To look for a key in the notices of a step, it does not matter whether they have been given
their moment already. -/
theorem about_map (key : Key) (clocks : Clocks) (notices : List Notice) :
    about key (notices.map (clocks.now, ·)) = (notices.filter (·.concerns key)).map (clocks.now, ·) :=
  List.filter_map

theorem turn_of_step {o : Option Notice} (hn : ∀ n ∈ o, n.concerns key = true)
    (hs : Standing.Step setup key clocks (p.standing key) o (q.standing key)) :
    Standing.Turn setup key clocks (p.standing key) (o.toList.filter (·.concerns key)) (q.standing key) := by
  rw [List.filter_eq_self.mpr fun n hmem => hn n (Option.mem_toList.mp hmem)]
  exact .step hs

theorem turn_of_eq {notices : List Notice} (hn : ∀ n ∈ notices, n.concerns key = false)
    (hs : q.standing key = p.standing key) :
    Standing.Turn setup key clocks (p.standing key) (notices.filter (·.concerns key)) (q.standing key) := by
  rw [List.filter_eq_nil_iff.mpr fun n hmem => by simp [hn n hmem], hs]
  exact .idle

/-- A worker moves on with its key, after the queue and the tables have changed as far as they are
about that key. -/
theorem Sound.turn_of_moveTo (h : q.Sound setup) {o : Option Notice} (hw : q.workers[i]? = some old)
    (ho : old.key? = some k) (hnew : new.key? = some k) (hn : ∀ n ∈ o, ∀ key, n.concerns key = decide (k = key))
    (hother : k ≠ key → q.standing key = p.standing key)
    (hself : k = key → Standing.Step setup key clocks (p.standing key) o
      { q.standing key with place := .held new (key ∈ q.queue.dirty) }) :
    Standing.Turn setup key clocks (p.standing key) (o.toList.filter (·.concerns key))
      ((q.moveTo i new).standing key) := by
  by_cases hk : k = key
  · refine turn_of_step (fun n hmem => (hn n hmem key).trans (decide_eq_true hk)) ?_
    rw [h.standing_moveTo_self hw (hk ▸ ho) (hk ▸ hnew)]
    exact hself hk
  · have hne : some k ≠ some key := fun heq => hk (Option.some.inj heq)
    refine turn_of_eq (fun n hmem => ?_) ?_
    · exact (hn n (Option.mem_toList.mp hmem) key).trans (decide_eq_false hk)
    · rw [standing_moveTo_of_ne hw (ho ▸ hne) (hnew ▸ hne)]
      exact hother hk

section outcomes

variable (h : p.Sound setup)

include h

/-- A trigger is accepted, or the resync puts a key in: that is something that happens to this key
alone. -/
theorem turn_of_accepted (ho : p.queue.closed = false) (k : Key) (kind : Trigger) :
    Standing.Turn setup key clocks (p.standing key) ([.accepted k kind].filter (·.concerns key))
      ((p.accept k kind).standing key) := by
  by_cases hk : k = key
  · subst hk
    refine turn_of_step (o := some (.accepted k kind)) (by simp [Notice.concerns]) ?_
    rw [h.standing_accept_self]
    exact .accept ho
  · exact turn_of_eq (List.forall_mem_singleton.mpr (decide_eq_false hk)) (h.standing_accept_of_ne hk kind)

/-- A trigger is refused only when the queue is shut, since a pool is not stopped before. -/
theorem turn_of_refused (hc : p.queue.closed = true ∨ p.phase = .stopped) (k : Key) :
    Standing.Turn setup key clocks (p.standing key) ([.refused k].filter (·.concerns key)) (p.standing key) := by
  by_cases hk : k = key
  · subst hk
    refine turn_of_step (o := some (.refused k)) (by simp [Notice.concerns]) (.refuse ?_)
    exact hc.elim id h.closed_of_stopped
  · exact turn_of_eq (List.forall_mem_singleton.mpr (decide_eq_false hk)) rfl

/-- A worker takes the first key that waits. A sound queue does not hold it a second time and does
not mark it, so it is held without a mark then. -/
theorem turn_of_took {rest : List Key} (hw : p.workers[i]? = some .asking) (hb : i ∉ p.queue.bell.waiting)
    (hp : p.queue.pending = k :: rest) :
    Standing.Turn setup key clocks (p.standing key) ([.delivered k (p.kindOf k)].filter (·.concerns key))
      ((p.taken i k rest).standing key) := by
  by_cases hk : k = key
  · subst hk
    have hwait : k ∈ p.queue.pending := by
      rw [hp]
      exact List.mem_cons_self
    have hclean : k ∉ p.queue.dirty := fun hd =>
      h.queue.not_mem_pending k (h.queue.mem_processing k hd) hwait
    have hw' : (p.taken i k rest).workers[i]? = some (.holding k (p.kindOf k)) := getElem?_moveTo hw _
    have hplace : (p.taken i k rest).place k = .held (.holding k (p.kindOf k)) false :=
      ((h.take hw hb hp).place_of_holder hw' rfl).trans (congrArg _ (decide_eq_false hclean))
    have hstanding : (p.taken i k rest).standing k =
        { p.standing k with place := .held (.holding k (p.kindOf k)) false, kind := none } := by
      rw [standing, hplace]
      simp [standing, taken, Queue.handOut, moveTo]
    refine turn_of_step (o := some (.delivered k (p.kindOf k))) (by simp [Notice.concerns]) ?_
    rw [hstanding]
    exact .deliver (h.place_of_pending hwait)
  · refine turn_of_eq (List.forall_mem_singleton.mpr (decide_eq_false hk)) ?_
    have hplace : (p.taken i k rest).place key = p.place key := by
      refine place_congr ?_ Iff.rfl ?_
      · exact seat_moveTo_of_ne hw (by simp [Stage.key?]) (by simpa [Stage.key?] using hk)
      · show key ∈ rest ↔ key ∈ p.queue.pending
        rw [hp, List.mem_cons, or_iff_right fun heq => hk heq.symm]
    rw [standing, hplace]
    simp [standing, taken, moveTo, Queue.handOut, Std.ExtTreeMap.getElem?_erase, hk]

/-- A worker gives its key back: the key waits again if it was marked, and rests otherwise. That it
did not wait in the queue beside being held is what `Queue.Sound` has kept. -/
theorem turn_of_released (hw : p.workers[i]? = some (.releasing k)) :
    Standing.Turn setup key clocks (p.standing key) ([].filter (·.concerns key))
      ((p.givenBack i k).standing key) := by
  by_cases hk : k = key
  · subst hk
    have hout : k ∉ p.queue.pending := h.queue.not_mem_pending k (h.mem_processing_of_holder hw rfl)
    have hplace : (p.givenBack i k).place k = if k ∈ p.queue.dirty then .waiting else .resting := by
      have hseat : (p.givenBack i k).seat k = none := seat_moveTo_of_drop hw h.nodup_held rfl rfl
      have hwait : k ∈ (p.queue.done k).pending ↔ k ∈ p.queue.dirty := by
        rw [Queue.mem_pending_done, or_iff_right hout, and_iff_right rfl]
      rw [place, hseat]
      simp [givenBack, moveTo, hwait]
    have hstanding : (p.givenBack i k).standing k =
        { p.standing k with place := if k ∈ p.queue.dirty then .waiting else .resting } := by
      rw [standing, hplace]
      simp [standing, givenBack, moveTo]
    have hstep : Standing.Step setup k clocks (p.standing k) none _ := .release (h.place_of_holder hw rfl)
    refine turn_of_step (o := none) (by simp) ?_
    rw [hstanding]
    simpa using hstep
  · refine turn_of_eq (by simp) ?_
    have hplace : (p.givenBack i k).place key = p.place key := by
      refine place_congr ?_ ?_ ?_
      · exact seat_moveTo_of_ne hw (by simpa [Stage.key?] using hk) (by simp [Stage.key?])
      · exact Queue.mem_dirty_done.trans (and_iff_left fun heq => hk heq.symm)
      · exact Queue.mem_pending_done.trans (or_iff_left fun heq => hk heq.1.symm)
    rw [standing, hplace]
    simp [standing, givenBack, moveTo]

/-- A worker that moves on closes the account of its key. -/
theorem turn_of_account_closed (hw : p.workers[i]? = some old) (ho : old.key? = some k) (hnew : new.key? = some k)
    (hself : k = key → Standing.Step setup key clocks (p.standing key) none
      { p.standing key with place := .held new (key ∈ p.queue.dirty), account := none }) :
    Standing.Turn setup key clocks (p.standing key) ([].filter (·.concerns key))
      ((({ p with accounts := p.accounts.erase k } : Pool).moveTo i new).standing key) := by
  have hsound : ({ p with accounts := p.accounts.erase k } : Pool).Sound setup := h.congr rfl rfl rfl rfl
  refine hsound.turn_of_moveTo (o := none) hw ho hnew (by simp) (fun hne => ?_) fun heq => ?_
  · rw [standing_erase_account, if_neg hne]
  · rw [standing_erase_account, if_pos heq]
    exact hself heq

/-- A worker that begins takes the failures of its key with it. -/
theorem turn_of_began {kind : Trigger} (hw : p.workers[i]? = some (.holding k kind)) :
    Standing.Turn setup key clocks (p.standing key) ([.began k].filter (·.concerns key))
      ((p.moveTo i (.handling ⟨k, kind, p.retryCount k, clocks.wall, clocks.now⟩)).standing key) := by
  refine h.turn_of_moveTo (o := some (.began k)) hw rfl rfl (by simp [Notice.concerns]) (fun _ => rfl) ?_
  rintro rfl
  exact .begin (h.place_of_holder hw rfl)

/-- A failure is counted in the account of the key, with the error as the last one. -/
theorem turn_of_failed {a : Attempt} (error : String) (hw : p.workers[i]? = some (.handling a)) :
    Standing.Turn setup key clocks (p.standing key) ([].filter (·.concerns key))
      ((({ p with accounts := p.accounts.insert a.key ⟨p.retryCount a.key + 1, error⟩ } : Pool).moveTo i
        (.counting a (a.elapsed clocks.now) error (p.retryCount a.key + 1))).standing key) := by
  have hsound : ({ p with accounts := p.accounts.insert a.key ⟨p.retryCount a.key + 1, error⟩ } : Pool).Sound setup :=
    h.congr rfl rfl rfl rfl
  refine hsound.turn_of_moveTo (o := none) hw rfl rfl (by simp) (fun hne => ?_) ?_
  · rw [standing_insert_account, if_neg hne]
  · rintro rfl
    rw [standing_insert_account, if_pos rfl]
    exact .fail (h.place_of_holder hw rfl)

section retry

variable {a : Attempt} {d : Span} {e : String} {f : Nat}

/-- A failure that is forgiven notes what set the attempt off, unless something else has been noted
meanwhile. -/
theorem turn_of_kept (hw : p.workers[i]? = some (.counting a d e f)) (hf : f ≤ setup.retryLimit) :
    Standing.Turn setup key clocks (p.standing key) ([].filter (·.concerns key))
      ((({ p with kinds := p.kinds.insertIfNew a.key a.trigger } : Pool).moveTo i
        (.retrying a d e f)).standing key) := by
  have hsound : ({ p with kinds := p.kinds.insertIfNew a.key a.trigger } : Pool).Sound setup :=
    h.congr rfl rfl rfl rfl
  refine hsound.turn_of_moveTo (o := none) hw rfl rfl (by simp) (fun hne => ?_) ?_
  · rw [standing_keep_kind, if_neg hne]
  · rintro rfl
    rw [standing_keep_kind, if_pos rfl]
    exact .keep (h.place_of_holder hw rfl) hf

/-- A key that is put in again at once is marked, since its worker still holds it. -/
theorem turn_of_retriedAtOnce (hw : p.workers[i]? = some (.retrying a d e f)) (ho : p.queue.closed = false)
    (hd : (setup.backoff.delay f).nanos = 0) :
    Standing.Turn setup key clocks (p.standing key) ([].filter (·.concerns key))
      ((({ p with queue := p.queue.insert a.key } : Pool).moveTo i (.settled a d (.failure e))).standing key) := by
  refine (h.insert ho a.key).turn_of_moveTo (o := none) hw rfl rfl (by simp) h.standing_insert_of_ne ?_
  rintro rfl
  have hmarked : a.key ∈ (p.queue.insert a.key).dirty :=
    Queue.mem_dirty_insert.mpr (.inr ⟨rfl, h.mem_processing_of_holder hw rfl⟩)
  rw [h.standing_insert_self, decide_eq_true hmarked]
  exact .retryAtOnce (h.place_of_holder hw rfl) ho hd

/-- A timer is set that puts the key in again, and sooner than any that was noted. -/
theorem turn_of_retryDelayed (hw : p.workers[i]? = some (.retrying a d e f)) (ho : p.queue.closed = false)
    (hd : (setup.backoff.delay f).nanos ≠ 0)
    (hm : ∀ m, p.queue.delayed[a.key]? = some m → clocks.now + (setup.backoff.delay f).nanos < m) :
    Standing.Turn setup key clocks (p.standing key)
      ([.delayed a.key (clocks.now + (setup.backoff.delay f).nanos)].filter (·.concerns key))
      ((({ p with queue := p.queue.setTimer a.key (clocks.now + (setup.backoff.delay f).nanos) } : Pool).moveTo i
        (.settled a d (.failure e))).standing key) := by
  refine (h.setTimer ho _ _).turn_of_moveTo (o := some (.delayed a.key _)) hw rfl rfl (by simp [Notice.concerns])
    (fun hne => ?_) ?_
  · rw [standing_set_timer, if_neg hne]
  · rintro rfl
    rw [standing_set_timer, if_pos rfl]
    exact .retryLater (h.place_of_holder hw rfl) ho hd hm

end retry

/-- The record of an attempt is made; it is about the key of the attempt. -/
theorem turn_of_recorded {a : Attempt} {d : Span} {o : Outcome} (hw : p.workers[i]? = some (.settled a d o)) :
    Standing.Turn setup key clocks (p.standing key)
      ([.recorded (a.record (Uuid.ofAttempt p.recordCount) d o)].filter (·.concerns key))
      (((p.record fun id => a.record id d o).moveTo i (.releasing a.key)).standing key) := by
  have hsound : (p.record fun id => a.record id d o).Sound setup := h.congr rfl rfl rfl rfl
  refine hsound.turn_of_moveTo (o := some (.recorded _)) hw rfl rfl (by simp [Notice.concerns, Attempt.record])
    (fun _ => rfl) ?_
  rintro rfl
  exact .record (h.place_of_holder hw rfl) rfl

/-- A timer that counts puts its key in: such a timer is found only while the queue is open. -/
theorem turn_of_fired {m : Moment} (hm : p.queue.delayed[k]? = some m) (hle : m ≤ clocks.now) :
    Standing.Turn setup key clocks (p.standing key)
      ((if p.queue.closed then [] else [.released k]).filter (·.concerns key))
      (({ p with queue := p.queue.fire k m } : Pool).standing key) := by
  obtain ⟨ho, hfire⟩ := h.queue.fire_of_delayed hm
  rw [if_neg (by simp [ho]), hfire]
  -- first the delay is forgotten, then the key is put in
  have hforgot : ({ p with queue := { p.queue with
      timers := p.queue.timers.erase (k, m), delayed := p.queue.delayed.erase k } } : Pool).Sound setup :=
    h.setQueue (h.queue.dropDelay k m) rfl rfl (fun _ => id) (.inl rfl)
  by_cases hk : k = key
  · subst hk
    refine turn_of_step (o := some (.released k)) (by simp [Notice.concerns]) ?_
    rw [hforgot.standing_insert_self, standing_drop_delay, if_pos rfl]
    exact .fire ho hm hle
  · have hn : ∀ n ∈ [Notice.released k], n.concerns key = false :=
      List.forall_mem_singleton.mpr (decide_eq_false hk)
    refine turn_of_eq hn ((hforgot.standing_insert_of_ne hk).trans ?_)
    rw [standing_drop_delay, if_neg hk]

/-- When the queue is shut every key loses its delay, and stays where it is. -/
theorem standing_shut (hs : p.supervisor = .endingResync) (key : Key) :
    ({ p with queue := p.queue.shutDown.2, supervisor := .draining p.queue.shutDown.1 } : Pool).standing key =
      { p.standing key with delayed := none, closed := true } := by
  rw [Queue.shutDown_of_open (h.open_of_endingResync hs)]
  show Standing.mk (p.place key) (∅ : Table Moment)[key]? p.accounts[key]? p.kinds[key]? true = _
  rw [Std.ExtTreeMap.getElem?_empty]
  rfl

/-- The queue is shut, which happens to all keys at once. -/
theorem turn_of_shut (hs : p.supervisor = .endingResync) :
    Standing.Turn setup key clocks (p.standing key) ([].filter (·.concerns key))
      (({ p with queue := p.queue.shutDown.2, supervisor := .draining p.queue.shutDown.1 } : Pool).standing key) := by
  refine turn_of_step (o := none) (by simp) ?_
  rw [standing_shut h hs]
  exact .shut (h.open_of_endingResync hs)

/-- To start the pool is nothing to any key, since the workers that it is given hold none. -/
theorem turn_of_start (hi : p.phase = .idle) :
    Standing.Turn setup key clocks (p.standing key) ([].filter (·.concerns key))
      ((p.start setup clocks).standing key) := by
  refine turn_of_eq (by simp) ?_
  have hseat : (p.start setup clocks).seat key = p.seat key := by
    rw [seat, seat, (h.idle hi).1, List.find?_nil, List.find?_eq_none]
    intro s hs
    rw [(List.mem_replicate.mp hs).2]
    simp [Stage.key?]
  have hplace : (p.start setup clocks).place key = p.place key := place_congr hseat Iff.rfl Iff.rfl
  rw [standing, hplace]
  rfl

/-- The account of a cancelled key is closed with a record. All workers have left by then, so no
worker holds the key. -/
theorem turn_of_closedOut {cancelled : List Key} {account : Account}
    (hs : p.supervisor = .draining (k :: cancelled)) (he : ∀ s ∈ p.workers, s = .exited)
    (ha : p.accounts[k]? = some account) :
    Standing.Turn setup key clocks (p.standing key)
      ([.recorded ⟨Uuid.ofAttempt p.recordCount, k, p.kindOf k, clocks.wall, Span.zero,
        .failureFinal account.lastError, account.failures⟩].filter (·.concerns key))
      (({ ({ p with accounts := p.accounts.erase k, kinds := p.kinds.erase k }.record fun id =>
          ⟨id, k, p.kindOf k, clocks.wall, Span.zero, .failureFinal account.lastError, account.failures⟩) with
        supervisor := .draining cancelled } : Pool).standing key) := by
  have hc := h.closed_of_draining hs
  have hstanding := standing_close_account p k key
  by_cases hk : k = key
  · subst hk
    rw [if_pos rfl, if_pos rfl] at hstanding
    refine turn_of_step (o := some _) (by simp [Notice.concerns]) (hstanding ▸ ?_)
    exact .abandon hc (place_ne_held he k) ha
  · rw [if_neg hk, if_neg hk] at hstanding
    exact turn_of_eq (List.forall_mem_singleton.mpr (decide_eq_false hk)) hstanding

/-- When the accounts are closed, nothing is left that could set a delivery off. -/
theorem turn_of_forgot (hs : p.supervisor = .draining []) (he : ∀ s ∈ p.workers, s = .exited) :
    Standing.Turn setup key clocks (p.standing key) ([].filter (·.concerns key))
      (({ p with kinds := ∅, supervisor := .closing } : Pool).standing key) := by
  refine turn_of_step (o := none) (by simp) ?_
  have hstanding : ({ p with kinds := ∅, supervisor := .closing } : Pool).standing key =
      { p.standing key with kind := none } := by
    show Standing.mk (p.place key) p.queue.delayed[key]? p.accounts[key]? (∅ : Table Trigger)[key]? p.queue.closed = _
    rw [Std.ExtTreeMap.getElem?_empty]
    rfl
  rw [hstanding]
  exact .forget (h.closed_of_draining hs) (place_ne_held he key)

end outcomes

/-- A worker that leaves holds no key. -/
theorem turn_of_left (hw : p.workers[i]? = some .asking) :
    Standing.Turn setup key clocks (p.standing key) ([].filter (·.concerns key))
      ((({ p with queue := { p.queue with bell := p.queue.bell.arrive i } } : Pool).moveTo i
        .exited).standing key) := by
  refine turn_of_eq (by simp) ?_
  exact standing_moveTo_of_ne (p := { p with queue := { p.queue with bell := p.queue.bell.arrive i } }) hw
    (by simp [Stage.key?]) (by simp [Stage.key?])

/-- For each key, a step of a sound pool is a turn, with the notices of the step that are about the
key. There is one lemma for each outcome of a step, and those that are not about the key leave it
alone. -/
theorem turn_of_act {a : Action} {notices : List Notice} (h : p.Sound setup)
    (hact : p.act setup clocks a = some (q, notices)) (key : Key) :
    Standing.Turn setup key clocks (p.standing key) (notices.filter (·.concerns key)) (q.standing key) := by
  cases step_of_act hact with
  | accepted ho => exact turn_of_accepted h ho _ _
  | refused hc => exact turn_of_refused h hc _
  | started hi => exact turn_of_start h hi
  | took hw hb hp => exact turn_of_took h hw hb hp
  | left hw => exact turn_of_left hw
  | released hw => exact turn_of_released h hw
  | began hw => exact turn_of_began h hw
  | failed hw => exact turn_of_failed h _ hw
  | kept hw hf => exact turn_of_kept h hw hf
  | retriedAtOnce hw ho hd => exact turn_of_retriedAtOnce h hw ho hd
  | retryDelayed hw ho hd hm => exact turn_of_retryDelayed h hw ho hd hm
  | recorded hw => exact turn_of_recorded h hw
  | succeeded hw =>
    refine turn_of_account_closed h hw rfl rfl ?_
    rintro rfl
    exact .succeed (h.place_of_holder hw rfl)
  | dropped hw hf =>
    refine turn_of_account_closed h hw rfl rfl ?_
    rintro rfl
    exact .drop (h.place_of_holder hw rfl) hf
  | retryRefused hw hc =>
    refine turn_of_account_closed h hw rfl rfl ?_
    rintro rfl
    exact .retryCancelled (h.place_of_holder hw rfl) hc
  | retryCovered hw ho hd hm hle =>
    refine h.turn_of_moveTo (o := none) hw rfl rfl (by simp) (fun _ => rfl) ?_
    rintro rfl
    exact .retryCovered (h.place_of_holder hw rfl) ho hd hm hle
  | fired ht hm hle => exact turn_of_fired h hm hle
  | lapsed hm =>
    rw [Queue.fire_of_not_delayed hm]
    exact turn_of_eq (by simp) rfl
  | put ho => exact turn_of_accepted h ho _ _
  | shut hs => exact turn_of_shut h hs
  | closedOut hs he ha => exact turn_of_closedOut h hs he ha
  | forgot hs he => exact turn_of_forgot h hs he
  -- what is left happens to the resync, the supervisor or the bell, and no standing shows it
  | stopRequested | waited | ticked | putLate | resyncEnded | heard | passedOver | stopped =>
    exact turn_of_eq (by simp) rfl

theorem path_of_act {a : Action} {notices : List Notice} (h : p.Sound setup)
    (hact : p.act setup clocks a = some (q, notices)) (key : Key) :
    Standing.Path setup key (p.standing key) (about key (notices.map (clocks.now, ·))) (q.standing key) := by
  rw [about_map]
  exact (turn_of_act h hact key).path

/-- **One key among many**: for each key, a run of a sound pool is a path, and the part of the log
that is about the key is its log. Whatever is said of one key in a whole run is shown on its
path. -/
theorem path_of_run {steps : List (Clocks × Action)} {log : Log} (h : p.Sound setup)
    (hrun : run setup p steps = some (q, log)) (key : Key) :
    Standing.Path setup key (p.standing key) (about key log) (q.standing key) := by
  induction steps generalizing p log with
  | nil =>
    cases hrun
    exact .refl
  | cons step steps ih =>
    obtain ⟨clocks, a⟩ := step
    obtain ⟨p', notices, later, hact, hlater, rfl⟩ := run_cons_eq_some.mp hrun
    rw [about_append]
    exact (path_of_act h hact key).trans (ih (sound_of_act h hact) hlater)

/-- What is in the log of a run about a key happened to it in a step; a path leads up to the step,
and another on to the end. -/
theorem exists_step_of_run {capacity : Nat} {steps : List (Clocks × Action)} {before after : Log} {t : Moment}
    {n : Notice} (h : run setup (fresh capacity) steps = some (p, before ++ (t, n) :: after))
    (hn : n.concerns key = true) :
    ∃ s clocks s', Standing.Path setup key .untouched (about key before) s ∧
      Standing.Step setup key clocks s (some n) s' ∧ t = clocks.now ∧
      Standing.Path setup key s' (about key after) (p.standing key) := by
  have hpath := path_of_run (sound_fresh setup capacity) h key
  rw [standing_fresh] at hpath
  exact hpath.exists_step (about_append_cons hn)

end ControlLoop.Pool
