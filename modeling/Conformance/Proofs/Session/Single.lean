/-
Conformance — one operation from its start to its end.

An operation that shares the client with no other branch goes through two rounds at most: one in
which it starts, and one at the end of its wait.  So what a run of it leaves can be written down: the
operation has ended at once, or at the end of its wait, or was dropped at a deadline before that.
-/
import Conformance.Proofs.Session.Completion
import Conformance.Proofs.Session.Trace
import Conformance.Proofs.Wait.Skipping

namespace Conformance

open Board

variable {σ : Type}

namespace Board

/-- The board of one operation without a limit. -/
def sole (op : Operation) (s : Session σ) (holder : Option Nat) (p : Place σ) : Board σ :=
  { session := s, holder, tasks := [{ place := p, work := .use op, limit := none }] }

section Sole

variable {T : Transport σ} {o : ClientOptions} {op : Operation} {s s' : Session σ} {b : Board σ}
variable {holder : Option Nat} {p : Place σ} {e : Ending} {deadline : Option Instant} {fuel : Nat}
variable {purpose : Purpose} {w : Wait}

/-! ## The two rounds -/

theorem poll_of_goOn {t : Task σ} (ht : b.tasks[0]? = some t)
    (h : goOn T o 0 t b = sole op s holder p) : poll T o b 0 = sole op s holder p := by
  simp only [poll, ht, h]
  simp [sole]

theorem poll_pausing
    (h : drive T o 0 phases (sole op s (some 0) (.pausing s.now)) (s.conn.begin o op)
      = sole op s' holder p) :
    poll T o (sole op s none (.pausing s.now)) 0 = sole op s' holder p := by
  refine poll_of_goOn rfl ?_
  rw [← h]
  simp [goOn, beginWork, sole, setTask, acquire, enter]

theorem poll_reading (hends : w.ends ≤ s.now)
    (h : drive T o 0 phases (sole op { s with wire := T.take s.now w.taken s.wire } (some 0)
      (.reading purpose w)) (s.conn.settled purpose w.verdict) = sole op s' holder p) :
    poll T o (sole op s (some 0) (.reading purpose w)) 0 = sole op s' holder p := by
  refine poll_of_goOn rfl ?_
  rw [← h]
  simp [goOn, sole, setWire, Nat.not_lt.mpr hends]

theorem dropAll_ended : dropAll T (sole op s holder (.ended e)) = sole op s holder (.ended e) :=
  dropAll_of_ended T rfl

theorem dropAll_reading : dropAll T (sole op s (some 0) (.reading purpose w))
    = sole op { s with
        wire := T.take s.now (readBy s.now w.taken (T.arrivals s.now s.wire)) s.wire } none
      (.ended .cancelled) := by
  simp [dropAll, sole, drop, setPlace, setTask, setWire, release]

/-- The operation has ended in this round. -/
theorem run_ended (fuel : Nat) (hone : b.tasks.length = 1) (h : poll T o b 0 = sole op s none (.ended e)) :
    Board.run T o .all deadline (fuel + 1) b = (sole op s none (.ended e), false) := by
  have hall : (sole op s none (.ended e)).tasks.all Task.isEnded = true := rfl
  simp only [Board.run, hone, List.range_one, Board.pass, h]
  split <;> simp [hall, dropAll_ended]

/-- In this round the operation has come to wait. -/
theorem run_waiting (deadline : Option Instant) (fuel : Nat) (hone : b.tasks.length = 1)
    (h : poll T o b 0 = sole op s (some 0) (.reading purpose w)) :
    Board.run T o .all deadline (fuel + 1) b =
      if deadline.any (· ≤ s.now) then
        (dropAll T (sole op s (some 0) (.reading purpose w)), true)
      else if deadline.any (· < w.ends) then
        (dropAll T (sole op { s with now := deadline.getD 0 } (some 0) (.reading purpose w)), true)
      else Board.run T o .all deadline fuel
        (sole op { s with now := w.ends } (some 0) (.reading purpose w)) := by
  have hpass : Board.pass T o .all (List.range b.tasks.length) b
      = (sole op s (some 0) (.reading purpose w), false) := by
    rw [hone, List.range_one, Board.pass, h]
    rfl
  have hall : (sole op s (some 0) (.reading purpose w)).tasks.all Task.isEnded = false := rfl
  have hhanded : (sole op s (some 0) (.reading purpose w)).handedOver = false := rfl
  have hwake : (sole op s (some 0) (.reading purpose w)).nextWake = some w.ends := by
    simp [nextWake, sole, Task.wake]
  simp only [Board.run, hpass, hall, hhanded, hwake, Bool.or_self, Bool.false_eq_true, if_false]
  cases deadline with
  | none => rfl
  | some d =>
      simp only [Option.any_some, decide_eq_true_eq, Option.getD_some]
      rfl

theorem drive_ended (c : Connection) (r : Outcome) :
    drive T o 0 (fuel + 1) (sole op s (some 0) p) (c, .ended r)
      = sole op { s with conn := c } none (.ended (.returned r)) := rfl

/-- A request whose line is written at once is awaited. -/
theorem drive_request {c : Connection} {id : Nat} {line : String} {sent : σ}
    (hwrite : T.write s.now line s.wire = .at s.now (sent, .ok ()))
    (hclock : s.now + o.requestTimeout < clockEnd) :
    let w := await id c.abandoned o.requestTimeout (s.now + o.requestTimeout) s.now
      (T.arrivals s.now sent)
    drive T o 0 (fuel + 2) (sole op s (some 0) p) (c, .next (.write (.request purpose id) line))
      = if w.ends ≤ s.now then
          drive T o 0 fuel
            (sole op { s with conn := c, wire := T.take s.now w.taken sent } (some 0) p)
            (c.settled purpose w.verdict)
        else sole op { s with conn := c, wire := sent } (some 0) (.reading purpose w) := by
  have hahead : ¬ clockEnd ≤ s.now + o.requestTimeout := Nat.not_le.mpr hclock
  simp only [drive, sole, setConn, setWire, hwrite, Sending.at, Option.any_some, Nat.le_refl,
    decide_true, if_true, Connection.written, hahead, if_false]
  split <;> rfl

/-- The session is open when this has been written. -/
theorem drive_announcement {c : Connection} {info : Wire.OpenResult} {line : String} {sent : σ}
    (hwrite : T.write s.now line s.wire = .at s.now (sent, .ok ())) :
    drive T o 0 (fuel + 2) (sole op s (some 0) p) (c, .next (.write (.announcement info) line))
      = sole op { s with conn := { c with state := .ready, server := some info }, wire := sent } none
          (.ended (.returned (.ok .done))) := by
  simp only [drive, sole, setConn, setWire, hwrite, Sending.at, Option.any_some, Nat.le_refl,
    decide_true, if_true, Connection.written]
  rfl

/-! ## The whole run -/

theorem run_of_ended
    (h : drive T o 0 phases (sole op s (some 0) (.pausing s.now)) (s.conn.begin o op)
      = sole op s' none (.ended e)) :
    Board.run T o .all deadline (passBound 1) (start s [{ work := .use op }])
      = (sole op s' none (.ended e), false) :=
  run_ended 15 rfl (poll_pausing h)

/-- The operation has come to wait; what follows the end of its wait ends it. -/
theorem run_of_waiting {s'' : Session σ}
    (h : drive T o 0 phases (sole op s (some 0) (.pausing s.now)) (s.conn.begin o op)
      = sole op s' (some 0) (.reading purpose w))
    (hd : ∀ d, deadline = some d → s'.now ≤ d) (hlater : s'.now < w.ends)
    (hrest : drive T o 0 phases (sole op
        { s' with now := w.ends, wire := T.take w.ends w.taken s'.wire } (some 0)
        (.reading purpose w)) (s'.conn.settled purpose w.verdict) = sole op s'' none (.ended e)) :
    ((∀ d, deadline = some d → w.ends ≤ d) →
      Board.run T o .all deadline (passBound 1) (start s [{ work := .use op }])
        = (sole op s'' none (.ended e), false)) ∧
    ∀ d, deadline = some d → d < w.ends →
      Board.run T o .all deadline (passBound 1) (start s [{ work := .use op }])
        = (sole op { s' with
            now := d
            wire := T.take d (readBy d w.taken (T.arrivals d s'.wire)) s'.wire } none
          (.ended .cancelled), true) := by
  have hrun := run_waiting (b := start s [{ work := .use op }]) deadline 15 rfl (poll_pausing h)
  have hpoll : poll T o (sole op { s' with now := w.ends } (some 0) (.reading purpose w)) 0
      = sole op s'' none (.ended e) := poll_reading (Nat.le_refl w.ends) hrest
  refine ⟨fun hin => ?_, fun d hd' hlate => ?_⟩
  · have hahead : deadline.any (· ≤ s'.now) = false ∧ deadline.any (· < w.ends) = false := by
      cases deadline with
      | none => exact ⟨rfl, rfl⟩
      | some d => simpa using ⟨Nat.lt_of_lt_of_le hlater (hin d rfl), hin d rfl⟩
    simp only [hahead, Bool.false_eq_true, if_false] at hrun
    exact hrun.trans (run_ended 14 rfl hpoll)
  · subst hd'
    simp only [Option.any_some, decide_eq_true_eq, hlate, if_true, Option.getD_some,
      dropAll_reading] at hrun
    refine hrun.trans ?_
    split
    · rw [Nat.le_antisymm ‹d ≤ s'.now› (hd d rfl)]
    · rfl

/-- A request whose line is written at once; what follows the end of its wait ends the operation. -/
theorem run_of_request (deadline : Option Instant) {c : Connection} {id : Nat} {line : String}
    {sent : σ} {s'' : Session σ}
    (hbegin : s.conn.begin o op = (c, .next (.write (.request purpose id) line)))
    (hwrite : T.write s.now line s.wire = .at s.now (sent, .ok ()))
    (hclock : s.now + o.requestTimeout < clockEnd) (hd : ∀ d, deadline = some d → s.now ≤ d)
    (hw : w = await id c.abandoned o.requestTimeout (s.now + o.requestTimeout) s.now
      (T.arrivals s.now sent))
    (hrest : ∀ fuel p, drive T o 0 (fuel + 3)
        (sole op { now := w.ends, conn := c, wire := T.take w.ends w.taken sent } (some 0) p)
        (c.settled purpose w.verdict) = sole op s'' none (.ended e)) :
    ((∀ d, deadline = some d → w.ends ≤ d) →
      Board.run T o .all deadline (passBound 1) (start s [{ work := .use op }])
        = (sole op s'' none (.ended e), false)) ∧
    ∀ d, deadline = some d → d < w.ends →
      Board.run T o .all deadline (passBound 1) (start s [{ work := .use op }])
        = (sole op
            { now := d, conn := c, wire := T.take d (readBy d w.taken (T.arrivals d sent)) sent } none
            (.ended .cancelled), true) := by
  have hfirst : drive T o 0 phases (sole op s (some 0) (.pausing s.now)) (s.conn.begin o op) = _ :=
    hbegin ▸ drive_request hwrite hclock
  simp only [← hw] at hfirst
  have hge : s.now ≤ w.ends := hw ▸ now_le_ends _
  by_cases hnow : w.ends ≤ s.now
  · have hends : s.now = w.ends := Nat.le_antisymm hge hnow
    rw [if_pos hnow] at hfirst
    refine ⟨fun _ => run_of_ended (hfirst.trans ?_), fun d hd' hlate => ?_⟩
    · rw [← hrest 0 (.pausing s.now), hends]
    · exact absurd (hd d hd') (Nat.not_le.mpr (hends ▸ hlate))
  · rw [if_neg hnow] at hfirst
    exact run_of_waiting hfirst hd (Nat.not_le.mp hnow) (hrest 2 _)

/-- What is asked of the client is answered at once. -/
theorem run_of_ask (deadline : Option Instant) (q : Query) :
    Board.run T o .all deadline (passBound 1) (start s [{ work := .use (.ask q) }])
      = (sole (.ask q) (look T s q).1 none (.ended (.returned (.ok (look T s q).2))), false) :=
  run_of_ended rfl

end Sole

end Board

end Conformance
