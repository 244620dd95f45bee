/-
Conformance — a request goes out.

An operation awaits one response at most: once its request has been written, nothing of it comes
to be awaited any more (`Board.Past`).  So the write of the request tells whether an operation that
has the client to itself breaks down (`breaks_of_request`): it does if the line was written well
and the deadline, counted from then on, lies beyond the clock.
-/
import Conformance.Proofs.Session.Loss
import Conformance.Proofs.Session.Overrun
import Conformance.Proofs.Session.Single

namespace Conformance

open Connection

variable {σ : Type}

/-- What is next is not the write of a request. -/
def Progress.IsPast : Progress → Prop
  | .next (.write why _) => why.requestId = none
  | _ => True

/-- The branch has no request yet to write. -/
def Place.IsPast : Place σ → Prop
  | .pausing _ => False
  | .queued _ => False
  | .writing why _ => why.requestId = none
  | _ => True

namespace Board

/-- No branch has a request yet to write. -/
def Past (b : Board σ) : Prop := ∀ i p, b.placeOf i = some p → p.IsPast

variable {T : Transport σ} {o : ClientOptions} {b b' : Board σ} {i : Nat} {c : Connection}

/-! ## One request is enough -/

theorem isPast_of_fail (c : Connection) (purpose : Purpose) (e : ClientError) :
    (c.fail purpose e).2.IsPast := by
  rw [fail_eq]
  trivial

theorem isPast_of_written (c : Connection) (why : Writing) (r : Except ClientError Unit) :
    (c.written why r).2.IsPast := by
  cases why <;> cases r <;> first | exact isPast_of_fail _ _ _ | trivial

theorem isPast_of_settled (c : Connection) (purpose : Purpose) (v : Verdict) :
    (c.settled purpose v).2.IsPast := by
  cases v with
  | refuse | misshapen => exact isPast_of_fail _ _ _
  | answer r =>
      cases purpose with
      | answer | listing => trivial
      | opening =>
          rcases opened_cases { c with inFlight := none } r with ⟨e, _, heq⟩ | ⟨info, _, heq⟩
          · simp only [settled, heq]
            exact isPast_of_fail _ _ _
          · simp only [settled, heq]
            rfl

theorem isPast_of_driven {next : Progress} (hd : Driven T o i b c next b') (hnext : next.IsPast) :
    ∀ p, b'.placeOf i = some p → p.IsPast := by
  induction hd with
  | ended | told | overflows | reads | stops =>
      intro p hp
      rw [eq_of_setPlace hp]
      trivial
  | writes =>
      intro p hp
      rw [eq_of_setPlace hp]
      exact hnext
  | @read _ _ _ _ p' _ _ _ _ hsettled _ ih =>
      have hnext : _ = p' := congrArg Prod.snd hsettled
      exact ih (hnext ▸ isPast_of_settled _ _ _)
  | @wrote _ _ _ _ p' _ _ _ hwritten _ ih =>
      have hnext : _ = p' := congrArg Prod.snd hwritten
      exact ih (hnext ▸ isPast_of_written _ _ _)
  | @stopped _ _ _ _ p' _ _ hstopped _ ih =>
      have hnext : .ended _ = p' := congrArg Prod.snd hstopped
      exact ih (hnext ▸ trivial)

theorem past_of_goes (hb : Past b) (h : Goes T o i b b') : Past b' := by
  intro j p hp
  by_cases hj : j = i
  · subst hj
    cases h with
    | still => exact hb j p hp
    | rests hq => exact (hb j _ hq).elim
    | rested =>
        rw [eq_of_setPlace hp]
        trivial
    | refused hasks | linesUp hasks | enters hasks =>
        obtain ⟨u, hq⟩ := pausing_of_asks hasks
        exact (hb j _ hq).elim
    | handed hq => exact (hb j _ hq).elim
    | wrote _ _ hd => exact isPast_of_driven hd (isPast_of_written _ _ _) p hp
    | read _ _ hd => exact isPast_of_driven hd (isPast_of_settled _ _ _) p hp
    | stopped _ _ hd => exact isPast_of_driven hd trivial p hp
  · rw [placeOf, task_of_goes h hj] at hp
    exact hb j p hp

theorem past_of_drops (hb : Past b) (h : Drops i b b') : Past b' := by
  intro j p hp
  by_cases hj : j = i
  · subst hj
    cases h with
    | gone => exact hb j p hp
    | idle | leaves | letsGo =>
        rw [eq_of_setPlace hp]
        trivial
  · rw [placeOf, task_of_drops h hj] at hp
    exact hb j p hp

theorem past_of_move (hb : Past b) (m : Move) : Past (b.move T o m) :=
  keeps_of_move (Q := Past) (fun _ _ _ => past_of_goes) (fun _ _ _ => past_of_drops)
    (fun _ _ hb => hb) hb m

theorem awaiter_of_past (hb : Past b) (m : Move) : b.awaiter T o m = none := by
  cases m with
  | drop | clock => rfl
  | poll i =>
      cases hp : b.placeOf i with
      | none =>
          refine awaiter_of_not_ready ?_
          rintro ⟨p, hp', _⟩
          cases hp.symm.trans hp'
      | some p =>
          have hpast := hb i p hp
          cases p with
          | pausing | queued => exact hpast.elim
          | writing why s =>
              have hstarts : b.starts i = none := starts_of_waits hp trivial
              have hno : why.requestId = none := hpast
              simp [awaiter, writeAt, hstarts, hp, Sending.asks, hno]
          | resting | reading | stopping | ended =>
              have hstarts : b.starts i = none := starts_of_place hp (by simp) id
              exact awaiter_of_idle (writeAt_of_place hp hstarts (by simp))

/-- Where no request is yet to write nothing comes to be awaited any more. -/
theorem awaits_of_past (ms : List Move) : ∀ {b : Board σ}, Past b →
    b.along T o (awaiter T o) ms = [] := by
  induction ms with
  | nil => exact fun _ => rfl
  | cons m ms ih =>
      intro b hb
      rw [along_cons, awaiter_of_past hb, ih (past_of_move hb m)]
      rfl

/-- A branch whose write ends has no request to write after that. -/
theorem isPast_of_goes {why : Writing} {r : Sending σ} (h : Goes T o i b b')
    (hwrite : b.writeAt T o i = some (why, r)) (hends : r.ends.any (· ≤ b.session.now) = true) :
    ∀ p, b'.placeOf i = some p → p.IsPast := by
  have hbegun : ∀ {op : Operation} {b₁ : Board σ}, b.starts i = some op →
      Driven T o i b₁ (b.session.conn.begin o op).1 (b.session.conn.begin o op).2 b' →
      b₁.session = b.session → ∀ p, b'.placeOf i = some p → p.IsPast := by
    intro op b₁ hstarts hd hsame
    simp only [writeAt, hstarts] at hwrite
    split at hwrite
    · rename_i why' line hbegin
      cases hwrite
      rw [hbegin] at hd
      cases hd with
      | writes hlater =>
          rw [sending, hsame] at hlater
          cases hends.symm.trans hlater
      | wrote _ hwritten hrest =>
          have hnext :=
            isPast_of_written (b.session.conn.begin o op).1 why (sending T b₁ line).result
          rw [hwritten] at hnext
          exact isPast_of_driven hrest hnext
    · cases hwrite
  -- a branch that is at no write ends none
  have hnone : ∀ {p : Place σ}, b.placeOf i = some p → b.starts i = none →
      (∀ why s, p ≠ .writing why s) → ∀ p, b'.placeOf i = some p → p.IsPast := by
    intro p hp hstarts hwrites
    cases (writeAt_of_place hp hstarts hwrites).symm.trans hwrite
  cases h with
  | still hnot => cases hends.symm.trans (later_of_not_ready hnot hwrite)
  | rests hp _ hasks => exact hnone hp (starts_of_pausing hp hasks) (by simp)
  | rested hp => exact hnone hp (starts_of_place hp (by simp) id) (by simp)
  | refused hasks hheld | linesUp hasks hheld =>
      obtain ⟨u, hp⟩ := pausing_of_asks hasks
      exact hnone hp (starts_of_busy hasks hheld) (by simp)
  | enters hasks hfree hd => exact hbegun ((starts_of_free hfree).trans hasks) hd rfl
  | handed hp hi hd => exact hbegun (starts_of_handed hi hp) hd rfl
  | wrote _ _ hd => exact isPast_of_driven hd (isPast_of_written _ _ _)
  | read _ _ hd => exact isPast_of_driven hd (isPast_of_settled _ _ _)
  | stopped _ _ hd => exact isPast_of_driven hd trivial

/-! ## An operation that has the client to itself -/

section Sole

variable {op : Operation} {s : Session σ} {why : Writing} {purpose : Purpose} {id : Nat}
variable {line : String} {r : Sending σ} {t : Instant}

/-- When the write of the only branch ends it is known what comes to be awaited. -/
theorem past_of_poll (hone : b.tasks.length = 1) (hwrite : b.writeAt T o 0 = some (why, r))
    (hends : r.ends.any (· ≤ b.session.now) = true) : Past (poll T o b 0) := by
  rcases move_cases T o b (.poll 0) with ⟨i, b₁, hi, h, hmoved⟩ | ⟨_, hi, _⟩ | ⟨_, hi, _⟩
  · cases hi
    have hpast : Past b₁ := by
      intro j p hp
      by_cases hj : j = 0
      · subst hj
        exact isPast_of_goes h hwrite hends p hp
      · rw [placeOf, task_of_goes h hj, List.getElem?_eq_none (by omega)] at hp
        cases hp
    exact hmoved.elim (fun heq => (show poll T o b 0 = b₁ from heq) ▸ hpast) (past_of_drops hpast)
  · cases hi
  · cases hi

theorem awaits_of_departing (fuel : Nat) (hone : b.tasks.length = 1)
    (hwrite : b.writeAt T o 0 = some (why, r)) (hends : r.ends.any (· ≤ b.session.now) = true) :
    b.along T o (awaiter T o) (runMoves T o .all none (fuel + 1) b)
      = (b.awaiter T o (.poll 0)).toList := by
  simp only [runMoves, along_append, hone, List.range_one, passMoves, ite_self, along_cons,
    along_nil, List.append_nil]
  refine (congrArg _ (awaits_of_past _ ?_)).trans (List.append_nil _)
  exact past_of_poll hone hwrite hends

/-- The moves of an operation that comes to write. -/
theorem runMoves_writing (fuel : Nat) (hone : b.tasks.length = 1)
    (h : poll T o b 0 = sole op s (some 0) (.writing why r)) :
    runMoves T o .all none (fuel + 1) b = .poll 0 ::
      match r.ends with
      | none => dropMoves (sole op s (some 0) (.writing why r))
      | some u => .clock u :: runMoves T o .all none fuel
          (sole op { s with now := u } (some 0) (.writing why r)) := by
  have hpass : Board.pass T o .all [0] b = (sole op s (some 0) (.writing why r), false) := by
    rw [Board.pass, h]
    rfl
  have hall : (sole op s (some 0) (.writing why r)).tasks.all Task.isEnded = false := rfl
  have hhanded : (sole op s (some 0) (.writing why r)).handedOver = false := rfl
  have hwake : (sole op s (some 0) (.writing why r)).nextWake = r.ends := by
    cases hends : r.ends <;> simp [nextWake, sole, Task.wake, hends]
  simp only [runMoves, hone, List.range_one, hpass, hall, hhanded, hwake, Bool.or_self,
    Bool.false_eq_true, if_false, Option.any_none, passMoves, ite_self, List.singleton_append]
  cases r.ends <;> rfl

/-- A line that takes its time. -/
theorem drive_writing {p : Place σ} {c : Connection} (fuel : Nat)
    (hlater : ¬ (T.write s.now line s.wire).ends.any (· ≤ s.now) = true) :
    drive T o 0 (fuel + 1) (sole op s (some 0) p) (c, .next (.write why line))
      = sole op { s with conn := c } (some 0) (.writing why (T.write s.now line s.wire)) :=
  if_neg hlater

theorem awaiter_of_asked (hwrite : b.writeAt T o 0 = some (.request purpose id, r)) :
    b.awaiter T o (.poll 0) =
      if r.ends.any (· ≤ b.session.now) && r.result.isOk then some b.session.now else none := by
  simp only [awaiter, hwrite, Option.any_some, Sending.asks, Writing.requestId, Option.isSome_some,
    Bool.true_and]

/-- An operation that has the client to itself awaits a response from the instant on at which its
request has been written well. -/
theorem mem_awaits_of_request {c : Connection}
    (hbegin : s.conn.begin o op = (c, .next (.write (.request purpose id) line))) :
    t ∈ gatherAwaits T o .all none [{ work := .use op }] s ↔
      ∃ u, (T.write s.now line s.wire).ends = some u ∧
        (T.write s.now line s.wire).result.isOk = true ∧ t = max s.now u := by
  have hwrite : (start s [{ work := .use op }]).writeAt T o 0
      = some (.request purpose id, T.write s.now line s.wire) := by
    have hstarts : (start s [{ work := .use op }]).starts 0 = some op := by
      simp [start, starts, asks]
    simp only [writeAt, hstarts]
    rw [show (start s [{ work := .use op }]).session = s from rfl, hbegin]
    rfl
  rw [gatherAwaits, gatherMoves, show passBound [_].length = 15 + 1 from rfl]
  by_cases hnow : (T.write s.now line s.wire).ends.any (· ≤ s.now) = true
  · -- the request is out in the round in which it starts
    rw [awaits_of_departing 15 rfl hwrite hnow, awaiter_of_asked hwrite]
    obtain ⟨u, hu, hle⟩ := (Option.any_eq_true _ _).mp hnow
    have hmax : max s.now u = s.now := Nat.max_eq_left (of_decide_eq_true hle)
    rw [show (start s [{ work := .use op }]).session = s from rfl, hnow, Bool.true_and]
    simp only [hu, Option.some_inj, exists_eq_left', hmax]
    cases (T.write s.now line s.wire).result.isOk <;> simp
  · have hpoll : poll T o (start s [{ work := .use op }]) 0
        = sole op { s with conn := c } (some 0)
            (.writing (.request purpose id) (T.write s.now line s.wire)) := by
      refine poll_pausing ?_
      rw [hbegin]
      exact drive_writing 4 hnow
    have hmove : (start s [{ work := .use op }]).move T o (.poll 0) = _ := hpoll
    rw [runMoves_writing 15 rfl hpoll, along_cons, awaiter_of_asked hwrite, hmove,
      show (start s [{ work := .use op }]).session = s from rfl, Bool.eq_false_iff.mpr hnow]
    cases hends : (T.write s.now line s.wire).ends with
    | none =>
        -- it never is
        simp [dropMoves, awaits_of_dropMoves]
    | some u =>
        have hmax : max s.now u = u :=
          Nat.max_eq_right (Nat.le_of_lt (by simpa [hends] using hnow))
        have hout : (T.write s.now line s.wire).ends.any (· ≤ u) = true := by simp [hends]
        have hwrite' : (sole op { now := u, conn := c, wire := s.wire } (some 0)
            (.writing (.request purpose id) (T.write s.now line s.wire))).writeAt T o 0
              = some (.request purpose id, T.write s.now line s.wire) := rfl
        have hlater := awaits_of_departing 14 rfl hwrite' hout
        rw [awaiter_of_asked hwrite', show (sole op { now := u, conn := c, wire := s.wire } (some 0)
          (.writing (.request purpose id) (T.write s.now line s.wire))).session.now = u from rfl,
          hout, Bool.true_and] at hlater
        simp only [Bool.false_and, Bool.false_eq_true, if_false, Option.toList_none,
          List.nil_append, along_cons, Option.some_inj, exists_eq_left', hmax]
        refine (iff_of_eq (congrArg (t ∈ ·) hlater)).trans ?_
        cases (T.write s.now line s.wire).result.isOk <;> simp

end Sole

end Board

/-- An operation that has the client to itself breaks down if and only if its request was written
well and the deadline, counted from then on, lies beyond the clock. -/
theorem breaks_of_request {T : Transport σ} {o : ClientOptions} {op : Operation} {s : Session σ}
    {c : Connection} {purpose : Purpose} {id : Nat} {line m : String}
    (hbegin : s.conn.begin o op = (c, .next (.write (.request purpose id) line))) :
    (gather T o .all none [{ work := .use op }] s).2.bind Program.crashIn = some m ↔
      m = clockOverflow ∧ ∃ u, (T.write s.now line s.wire).ends = some u ∧
        (T.write s.now line s.wire).result.isOk = true ∧ o.Overruns (max s.now u) := by
  rw [breaks_of_gather]
  refine and_congr_right fun _ => ⟨?_, ?_⟩
  · rintro ⟨t, ht, hover⟩
    obtain ⟨u, hends, hok, rfl⟩ := (Board.mem_awaits_of_request hbegin).mp ht
    exact ⟨u, hends, hok, hover⟩
  · rintro ⟨u, hends, hok, hover⟩
    exact ⟨_, (Board.mem_awaits_of_request hbegin).mpr ⟨u, hends, hok, rfl⟩, hover⟩

/-! ## A session that cannot be opened -/

/-- The branch is not about to open the session. -/
def Place.IsShut : Place σ → Prop
  | .reading _ _ => False
  | .writing (.announcement _) _ => False
  | _ => True

/-- The session is not open, and no branch is about to open it. -/
structure Board.Shut (b : Board σ) : Prop where
  state : b.session.conn.state ≠ .ready
  place : ∀ i p, b.placeOf i = some p → p.IsShut

section Shut

open Board

variable {T : Transport σ} {o : ClientOptions} {b b' : Board σ} {i : Nat} {c : Connection}

theorem state_of_fail {purpose : Purpose} {e : ClientError} (hc : c.state ≠ .ready) :
    (c.fail purpose e).1.state ≠ .ready := by
  rw [fail_eq]
  show c.failedState purpose e ≠ .ready
  simp only [failedState]
  split
  · simp
  · cases purpose with
    | opening => simp
    | answer | listing => exact hc

/-- What is written opens no session, but for the announcement that it is open. -/
theorem state_of_written (why : Writing) (r : Except ClientError Unit) (hc : c.state ≠ .ready)
    (hwhy : ∀ info, why ≠ .announcement info) : (c.written why r).1.state ≠ .ready := by
  cases why with
  | announcement info => exact absurd rfl (hwhy info)
  | request purpose id =>
      cases r with
      | ok u => exact hc
      | error e => exact state_of_fail (c := { c with inFlight := none }) hc
  | notification =>
      cases r with
      | ok u => exact hc
      | error e =>
          rw [written, note_eq]
          show (if e.isFatal then _ else c.state) ≠ _
          split
          · simp
          · exact hc

/-- Nothing is written behind what was written before a response is read. -/
theorem not_write_of_written (c : Connection) (why why' : Writing) (r : Except ClientError Unit)
    (line : String) : (c.written why r).2 ≠ .next (.write why' line) := by
  cases why <;> cases r <;> simp [written, fail_eq]

/-- Where every deadline lies beyond the clock no response is read, so no session is opened. -/
theorem shut_of_driven {next : Progress} (hover : clockEnd ≤ o.requestTimeout)
    (hd : Driven T o i b c next b') (hc : c.state ≠ .ready)
    (hnext : ∀ info line, next ≠ .next (.write (.announcement info) line)) :
    b'.session.conn.state ≠ .ready ∧ ∀ p, b'.placeOf i = some p → p.IsShut := by
  have hnever : ∀ now, ¬ now + o.requestTimeout < clockEnd := fun now =>
    Nat.not_lt.mpr (Nat.le_trans hover (Nat.le_add_left _ _))
  induction hd with
  | ended | overflows | stops =>
      refine ⟨hc, fun p hp => ?_⟩
      rw [eq_of_setPlace hp]
      trivial
  | @told b c q s r hlook =>
      refine ⟨?_, fun p hp => ?_⟩
      · show s.conn.state ≠ .ready
        rw [conn_of_told hlook]
        exact hc
      · rw [eq_of_setPlace hp]
        trivial
  | reads hin | read hin => exact absurd hin (hnever _)
  | @writes b c why line =>
      refine ⟨hc, fun p hp => ?_⟩
      rw [eq_of_setPlace hp]
      cases why with
      | announcement info => exact absurd rfl (hnext info line)
      | request | notification => trivial
  | @wrote b _ c _ _ why line _ hwritten _ ih =>
      have hnone := not_write_of_written c why
      have hstate := state_of_written why (b.sending T line).result hc
        fun info hwhy => hnext info line (hwhy ▸ rfl)
      rw [hwritten] at hstate
      exact ih hstate fun info line' heq => hnone _ _ _ ((congrArg Prod.snd hwritten).trans heq)
  | @stopped _ _ _ _ _ _ _ hstopped _ ih =>
      have hstate : _ = _ := congrArg (·.1.state) hstopped
      exact ih (hstate ▸ hc) fun info line' heq => nomatch (congrArg Prod.snd hstopped).trans heq

theorem state_of_begin (o : ClientOptions) (op : Operation) (hc : c.state ≠ .ready) :
    (c.begin o op).1.state ≠ .ready ∧
      ∀ info line, (c.begin o op).2 ≠ .next (.write (.announcement info) line) := by
  have hrefused : ∃ e, c.refusal = some e := by
    rw [← Option.isSome_iff_exists, ← Option.ne_none_iff_isSome]
    exact fun hnone => hc (refusal_eq_none_iff.mp hnone)
  obtain ⟨e, he⟩ := hrefused
  cases op with
  | connect => cases hs : c.state <;> simp_all [begin, Connection.start]
  | request | unprintable | listTools | notify =>
      simp only [begin, he]
      exact ⟨hc, by simp⟩
  | shutdown | ask => exact ⟨by simp_all [begin], by simp [begin]⟩

theorem shut_of_goes (hover : clockEnd ≤ o.requestTimeout) (hb : b.Shut) (h : Goes T o i b b') :
    b'.Shut := by
  have hmoved : b'.session.conn.state ≠ .ready →
      (∀ p, b'.placeOf i = some p → p.IsShut) → b'.Shut := by
    refine fun hstate hself => ⟨hstate, fun j p hp => ?_⟩
    by_cases hj : j = i
    · subst hj
      exact hself p hp
    · rw [placeOf, task_of_goes h hj] at hp
      exact hb.place j p hp
  have hdriven : ∀ {b₁ : Board σ} {c : Connection} {next : Progress}, Driven T o i b₁ c next b' →
      c.state ≠ .ready ∧ (∀ info line, next ≠ .next (.write (.announcement info) line)) →
      b'.Shut := fun hd hnext =>
    hmoved (shut_of_driven hover hd hnext.1 hnext.2).1 (shut_of_driven hover hd hnext.1 hnext.2).2
  cases h with
  | still => exact hb
  | @rests _ p _ _ _ _ hfree =>
      refine hmoved hb.state fun q hq => ?_
      rw [eq_of_setPlace hq]
      cases p with
      | writing | reading => exact absurd trivial hfree.1
      | _ => trivial
  | rested | refused | linesUp =>
      refine hmoved hb.state fun q hq => ?_
      rw [eq_of_setPlace hq]
      trivial
  | enters _ _ hd | handed _ _ hd => exact hdriven hd (state_of_begin o _ hb.state)
  | @wrote why s _ hp _ hd =>
      have hwhy : ∀ info, why ≠ .announcement info := by
        rintro info rfl
        exact hb.place i _ hp
      exact hdriven hd ⟨state_of_written why s.result hb.state hwhy,
        fun info line => not_write_of_written _ why _ s.result line⟩
  | read hp => exact (hb.place i _ hp).elim
  | stopped _ _ hd => exact hdriven hd ⟨hb.state, by simp [stopped]⟩

theorem shut_of_drops (hb : b.Shut) (h : Drops i b b') : b'.Shut := by
  have hstate : b'.session.conn = b.session.conn := by cases h <;> rfl
  refine ⟨hstate ▸ hb.state, fun j p hp => ?_⟩
  by_cases hj : j = i
  · subst hj
    cases h with
    | gone => exact hb.place j p hp
    | idle | leaves | letsGo =>
        rw [eq_of_setPlace hp]
        trivial
  · rw [placeOf, task_of_drops h hj] at hp
    exact hb.place j p hp

theorem shut_of_move (hover : clockEnd ≤ o.requestTimeout) (hb : b.Shut) (m : Move) :
    (b.move T o m).Shut :=
  keeps_of_move (Q := Shut) (fun _ _ _ => shut_of_goes hover) (fun _ _ _ => shut_of_drops)
    (fun _ _ hb => ⟨hb.state, hb.place⟩) hb m

/-- Where every deadline lies beyond the clock no operations open a session. -/
theorem shut_of_gather (hover : clockEnd ≤ o.requestTimeout) (mode : Gather)
    (deadline : Option Instant) (branches : List Branch) {s : Session σ}
    (hs : s.conn.state ≠ .ready) :
    (gather T o mode deadline branches s).1.conn.state ≠ .ready := by
  have hstart : (Board.start s branches).Shut := by
    refine ⟨hs, fun i p hp => ?_⟩
    obtain ⟨u, rfl⟩ := placeOf_start hp
    trivial
  rw [session_of_gather]
  exact (keeps_of_moves (Q := Shut) (fun _ m hb => shut_of_move hover hb m) hstart _).state

end Shut

end Conformance
