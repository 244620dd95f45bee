/-
Conformance — which answers are dropped as late.

A client that awaits one response drops another as late when its id is not
above the mark.  By what the mark is worth (`Marked`) this is so exactly when
some request that was given up has an id at least as high: not only for the
requests that were given up, but for every id below the highest of them, those
that have had their response and those that were never given included.

`discard_iff` says when an answer is dropped and what becomes of it otherwise,
and when this is the same as dropping the answers to requests given up and no
others.  That it is not always the same is `discard_of_unknown`: after one
request was given up, an answer to request 0 is dropped without a word.
-/
import Conformance.Proofs.Session.History

namespace Conformance

open Client Connection

theorem any_le_iff {abandoned : Option Nat} {id : Nat} :
    abandoned.any (id ≤ ·) = true ↔ ∃ m, abandoned = some m ∧ id ≤ m := by
  cases abandoned <;> simp

/-- A request of an open session is not the one that opens it. -/
theorem purpose_of_ready {s : Client} {purpose : Purpose} {id : Nat} (hfits : s.Fits)
    (hp : s.phase = some (.await purpose id)) (hs : s.conn.state = .ready) :
    purpose = .answer ∨ purpose = .listing := by
  rw [Fits, hp] at hfits
  cases purpose with
  | opening => exact nomatch hfits.symm.trans hs
  | answer => exact .inl rfl
  | listing => exact .inr rfl

/-- In an open session a mismatch ends the operation and leaves the connection as it is. -/
theorem settled_mismatch {c : Connection} {purpose : Purpose} {expected actual : Nat}
    (hpurpose : purpose = .answer ∨ purpose = .listing) (hs : c.state = .ready) :
    c.settled purpose (.refuse (.idMismatch expected actual)) =
      (c, .ended (.error (.idMismatch expected actual))) := by
  obtain ⟨lastId, state, inFlight, abandoned, server⟩ := c
  cases hs
  rcases hpurpose with rfl | rfl <;> rfl

/-- What becomes of a response to another request. -/
theorem step_foreign {o : ClientOptions} {s : Client} {purpose : Purpose} {id : Nat}
    {item : Except ClientError Incoming} {r : Wire.Response} (hfits : s.Fits)
    (hp : s.phase = some (.await purpose id)) (hs : s.conn.state = .ready)
    (hr : responseOf item = some r) (hid : r.id ≠ id) :
    s.step o (.heard item) =
      if s.conn.abandoned.any (r.id ≤ ·) then some (s, none)
      else some ({ conn := s.conn }, some (.error (.idMismatch id r.id))) := by
  rw [step_heard hp, judge_of_foreign hr hid]
  by_cases hmark : s.conn.abandoned.any (r.id ≤ ·) = true
  · rw [if_pos hmark, if_pos hmark]
  · rw [if_neg hmark, if_neg hmark]
    simp only [settled_mismatch (purpose_of_ready hfits hp hs) hs, settle]

/-- While the response to `id` is awaited in an open session, one to another
request is dropped exactly when a request that was given up has an id no lower;
if none has, it ends the operation with a mismatch.  This agrees with "dropped
if and only if that request itself was given up" exactly when it was, or none
was given up with an id no lower. -/
theorem discard_iff {o : ClientOptions} {h : History} (hrun : Run o h) {purpose : Purpose}
    {id : Nat} (hp : h.now.phase = some (.await purpose id))
    (hs : h.now.conn.state = .ready) {item : Except ClientError Incoming} {r : Wire.Response}
    (hr : responseOf item = some r) (hid : r.id ≠ id) :
    (h.now.step o (.heard item) = some (h.now, none) ↔
      ∃ j, h.Outstanding j ∧ j ≠ id ∧ r.id ≤ j) ∧
    (h.now.step o (.heard item)
        = some ({ conn := h.now.conn }, some (.error (.idMismatch id r.id))) ↔
      ∀ j, h.Outstanding j → j ≠ id → j < r.id) ∧
    ((¬ h.Outstanding r.id →
        h.now.step o (.heard item)
          = some ({ conn := h.now.conn }, some (.error (.idMismatch id r.id)))) ↔
      h.Outstanding r.id ∨ ∀ j, h.Outstanding j → j ≠ id → j < r.id) := by
  have hm : Marked h := marked_of_run hrun
  have hflight : h.now.conn.inFlight = some id := hm.busy id (by rw [pending, hp])
  have hmark : h.now.conn.abandoned.any (r.id ≤ ·) = true ↔
      ∃ j, h.Outstanding j ∧ j ≠ id ∧ r.id ≤ j := by
    rw [any_le_iff, le_mark_iff hm, hflight]
    simp only [ne_eq, Option.some.injEq, eq_comm]
  have hstep := step_foreign (o := o) (fits_of_run hrun) hp hs hr hid
  have hnot : (¬ ∃ j, h.Outstanding j ∧ j ≠ id ∧ r.id ≤ j) ↔
      ∀ j, h.Outstanding j → j ≠ id → j < r.id := by
    simp only [not_exists, not_and, Nat.not_le]
  have hdiscard : h.now.step o (.heard item) = some (h.now, none) ↔
      ∃ j, h.Outstanding j ∧ j ≠ id ∧ r.id ≤ j := by
    rw [hstep, ← hmark]
    split <;> simp [*]
  have hmismatch : h.now.step o (.heard item)
      = some ({ conn := h.now.conn }, some (.error (.idMismatch id r.id))) ↔
      ∀ j, h.Outstanding j → j ≠ id → j < r.id := by
    rw [hstep, ← hnot, ← hmark]
    split <;> simp [*]
  refine ⟨hdiscard, hmismatch, ?_⟩
  rw [hmismatch]
  exact or_iff_not_imp_left.symm

/-- Request 2 was given up and request 3 is awaited; nobody asked request 0, and
its answer is dropped, while the one to request 9 ends the operation. -/
theorem discard_of_unknown :
    ∃ h zero nine, Run {} h ∧ h.now.phase = some (.await .listing 3) ∧
      h.now.conn.state = .ready ∧ 0 ∉ h.asked ∧
      (responseOf zero).map (·.id) = some 0 ∧ h.now.step {} (.heard zero) = some (h.now, none) ∧
      (responseOf nine).map (·.id) = some 9 ∧
      h.now.step {} (.heard nine)
        = some ({ conn := h.now.conn }, some (.error (.idMismatch 3 9))) := by
  have hrun : Run {} (History.play {}
      [.start .connect, .written (.ok ()),
        .heard (.ok (.line "\x7b\"id\":1,\"result\":\x7b\x7d\x7d")), .written (.ok ()),
        .start .listTools, .written (.ok ()), .expired,
        .start .listTools, .written (.ok ())]) := run_play _ _
  have hzero : responseOf (.ok (.line "\x7b\"id\":0,\"result\":\x7b\x7d\x7d"))
      = some { id := 0, result := some (.obj []) } := rfl
  have hnine : responseOf (.ok (.line "\x7b\"id\":9,\"result\":\x7b\x7d\x7d"))
      = some { id := 9, result := some (.obj []) } := rfl
  refine ⟨_, _, _, hrun, rfl, rfl, ?_, congrArg _ hzero, ?_, congrArg _ hnine, ?_⟩
  · exact fun hin => absurd ((marked_of_run hrun).given 0 hin).1 (by decide)
  · refine (discard_iff hrun rfl rfl hzero (by decide)).1.mpr ⟨2, ?_, by decide, by decide⟩
    exact ((marked_of_run hrun).mark 2 rfl).1
  · refine (discard_iff hrun rfl rfl hnine (by decide)).2.1.mpr fun j hj _ => ?_
    exact Nat.lt_of_le_of_lt ((marked_of_run hrun).given j hj.1).2 (by decide)

end Conformance
