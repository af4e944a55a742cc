import ControlLoop.Proofs.Bench.PoolDesk
import ControlLoop.Proofs.Bench.SerialDesk

/-!
# Two loops that can not be told apart

A pool with one worker that forgives no failure and has no resync, and a serial loop: both refine
the desk, so that a client who does the same at the same moments finds the same in both
(`variants_agree`), as long as they take every trigger and no key comes twice. In a pool a key that
comes twice may be folded into one delivery, and when the signal to stop is given the two close
their doors at different moments.
-/

namespace ControlLoop.Bench

open PoolBench (lone)

variable {ω : Type}

/-- Where neither folds triggers nor tries anything again the two loops agree, whatever handler they
run, and whatever a client asks of them and when. At all times what has happened in one of them
(what was accepted, delivered, begun and recorded, each with its moment) is what has happened in the
other so far. Whenever the client acts they have begun to run the handler on the same keys, in the
same order and at the same moments, show the same ledger, and have come equally far. If the client
has got through its errands with one of them it gets through them with the other, as long as that
takes every trigger. The tasks of either may take their turns in any order. -/
theorem variants_agree (handler : Handler ω) (source : ω → List Key) (backoff : Backoff) (capacity : Nat) (world : ω)
    (wall : Timestamp) (errands : List Errand) {p : Visit (PoolBench.machine ω)} {s : Visit (SerialBench.machine ω)}
    (hp : Visit.Leads PoolBench.ask
      ⟨PoolBench.create (lone backoff) handler source capacity world wall, none, errands⟩ p)
    (hs : Visit.Leads SerialBench.ask ⟨SerialBench.create handler capacity world wall, none, errands⟩ s)
    (honce : ((Pool.acceptedIn p.bench.state.flight.log).map Prod.fst).Nodup)
    (hpool : Willing p.bench.state.flight.log) (hserial : Willing s.bench.state.flight.log) :
    (p.bench.state.flight.log <:+ s.bench.state.flight.log ∨ s.bench.state.flight.log <:+ p.bench.state.flight.log) ∧
      (p.waits = none → s.waits = none → p.errands = s.errands →
        p.bench.state.flight.calls = s.bench.state.flight.calls ∧
          p.bench.state.pool.ledger = s.bench.state.serial.ledger ∧
          p.bench.state.pool.phase = s.bench.state.serial.phase) ∧
      (s.waits = none → s.errands = [] → p.GetsThrough PoolBench.ask fun state => Clean state.flight.log) ∧
      (p.waits = none → p.errands = [] → s.GetsThrough SerialBench.ask fun state => Willing state.flight.log) := by
  let start : Office.Visit ω :=
    ⟨{ desk := { ledger := .empty capacity, flight := { world, wall } } }, .idle, none, errands⟩
  have hpoolStart : Refines.Seen PoolBench.State.desk PoolBench.State.phase (PoolBench.Manned backoff handler capacity)
      ⟨PoolBench.create (lone backoff) handler source capacity world wall, none, errands⟩ start :=
    ⟨PoolBench.manned_create backoff handler source capacity world wall, rfl, fun _ => rfl, rfl, rfl⟩
  have hserialStart : Refines.Seen SerialBench.State.desk SerialBench.State.phase (SerialBench.Manned handler)
      ⟨SerialBench.create handler capacity world wall, none, errands⟩ start :=
    ⟨SerialBench.manned_create handler capacity world wall, rfl, fun _ => rfl, rfl, rfl⟩
  obtain ⟨v, hv, hseenPool⟩ := (PoolBench.refines backoff handler capacity).leads hp ⟨hpool, honce⟩ hpoolStart
  obtain ⟨w, hw, hseenSerial⟩ := (SerialBench.refines handler).leads hs hserial hserialStart
  have hpoolDesk : v.office.desk = p.bench.state.desk := congrArg Office.desk hseenPool.office
  have hserialDesk : w.office.desk = s.bench.state.desk := congrArg Office.desk hseenSerial.office
  have htotal : Office.Visit.Leads handler v w ∨ Office.Visit.Leads handler w v := StateTransition.reaches_total hv hw
  refine ⟨?_, ?_, fun hwaits herrands => ?_, fun hwaits herrands => ?_⟩
  · have hlogs := htotal.imp Office.Visit.Leads.log Office.Visit.Leads.log
    rw [hpoolDesk, hserialDesk] at hlogs
    exact hlogs
  · intro hpwaits hswaits herrands
    have hvwaits : v.waits = none := hseenPool.waits.trans hpwaits
    have hwwaits : w.waits = none := hseenSerial.waits.trans hswaits
    have hsame : w.errands = v.errands := hseenSerial.errands.trans (herrands.symm.trans hseenPool.errands.symm)
    have heq : v = w := htotal.elim (·.eq_of_errands hvwaits hsame) fun h => (h.eq_of_errands hwwaits hsame.symm).symm
    have hdesk : p.bench.state.desk = s.bench.state.desk := by rw [← hpoolDesk, ← hserialDesk, heq]
    have hphase : p.bench.state.phase = s.bench.state.phase := by
      rw [← hseenPool.phase hpwaits, ← hseenSerial.phase hswaits, heq]
    exact ⟨congrArg (fun d : Desk ω => d.flight.calls) hdesk, congrArg Desk.ledger hdesk, hphase⟩
  · have hdone : w.next? handler = none :=
      Office.Visit.next?_eq_none_iff.mpr ⟨hseenSerial.waits.trans hwaits, hseenSerial.errands.trans herrands⟩
    exact (PoolBench.refines backoff handler capacity).getsThrough (hw.leads_of_done hdone hv) hdone hseenPool
  · have hdone : v.next? handler = none :=
      Office.Visit.next?_eq_none_iff.mpr ⟨hseenPool.waits.trans hwaits, hseenPool.errands.trans herrands⟩
    exact (SerialBench.refines handler).getsThrough (hv.leads_of_done hdone hw) hdone hseenSerial

/-- A handler that, run on the key "a", triggers "b", sleeps for a second and fails. -/
def passOn : Handler Unit := fun world key =>
  if key = "a" then (⟨[.trigger "b" .auto, .sleep (Span.ofMillis 1000)], .failure ⟨"a is broken"⟩⟩, world)
  else (⟨[], .success⟩, world)

/-- A client runs a loop, triggers "a", and stops the loop while the handler sleeps. -/
def stopEarly : List Errand :=
  [.ask .run, .ask (.trigger "a" .manual), .wait (Span.ofMillis 300), .ask .stop, .wait (Span.ofMillis 2000)]

/-- What such a client makes of a pool. -/
def stoppedPool? : Option (PoolBench Unit) :=
  carry? PoolBench.ask 100 5 (PoolBench.create (lone (.fixed Span.zero)) passOn (fun _ => []) 5 () .epoch) stopEarly

/-- What such a client makes of a serial loop. -/
def stoppedSerial? : Option (SerialBench Unit) :=
  carry? SerialBench.ask 100 5 (SerialBench.create passOn 5 () .epoch) stopEarly

theorem isSome_stoppedPool? : stoppedPool?.isSome := by decide +kernel

theorem isSome_stoppedSerial? : stoppedSerial?.isSome := by decide +kernel

/-- Both handle "a" and then "b", which the handler triggered before the signal to stop, and stop
after that. -/
theorem variants_agree_when_stopped_early :
    ∃ p ∈ stoppedPool?, ∃ s ∈ stoppedSerial?,
      p.flight.calls = [(0, "a"), ((Span.ofMillis 1000).nanos, "b")] ∧ p.pool.phase = .stopped ∧
        p.flight.calls = s.flight.calls ∧ p.pool.ledger = s.serial.ledger ∧ p.pool.phase = s.serial.phase := by
  have hpool := Option.get_mem isSome_stoppedPool?
  have hserial := Option.get_mem isSome_stoppedSerial?
  have hagree := variants_agree passOn (fun _ => []) (.fixed Span.zero) 5 () .epoch stopEarly (leads_of_carry? hpool)
    (leads_of_carry? hserial) (by decide +kernel) (by decide +kernel) (by decide +kernel)
  exact ⟨_, hpool, _, hserial, by decide +kernel, by decide +kernel, hagree.2.1 rfl rfl rfl⟩

end ControlLoop.Bench
