/-
Conformance — deadlines beyond the clock.

A response is awaited from the instant at which the line of its request is out.  If the
deadline would then lie beyond the clock, the branch breaks down; nothing else breaks a branch
(`broken_of_move`).  So what an operation does to a run can be told from the instants at which
responses come to be awaited (`awaiter`): branches side by side break down if and only if the
deadline of one of them is out of reach (`breaks_of_gather`), and so does a program that
does not break down of its own accord (`crashed_iff`).

An instant counts by the clock of the client, which stands still while branches are polled: no
response is awaited later than the clock is at the end (`now_of_awaits`).
-/
import Conformance.Proofs.Session.Stops

namespace Conformance

open Connection

variable {σ : Type}

/-- The deadline of a response that is awaited from `t` on lies beyond the clock. -/
def ClientOptions.Overruns (o : ClientOptions) (t : Instant) : Prop :=
  clockEnd ≤ t + o.requestTimeout

instance (o : ClientOptions) (t : Instant) : Decidable (o.Overruns t) :=
  inferInstanceAs (Decidable (clockEnd ≤ t + o.requestTimeout))

/-- A request is out: its line has been written, whole and well. -/
def Sending.asks (why : Writing) (now : Instant) (s : Sending σ) : Bool :=
  why.requestId.isSome && s.ends.any (· ≤ now) && s.result.isOk

namespace Board

/-- The write at which branch `i` is when it is polled: the first of the operation that it
starts, or the one under way. -/
def writeAt (T : Transport σ) (o : ClientOptions) (b : Board σ) (i : Nat) :
    Option (Writing × Sending σ) :=
  match b.starts i with
  | some op =>
      match (b.session.conn.begin o op).2 with
      | .next (.write why line) => some (why, b.sending T line)
      | _ => none
  | none =>
      match b.placeOf i with
      | some (.writing why s) => some (why, s)
      | _ => none

/-- The instant from which a response is awaited, if a branch comes to that at a move. -/
def awaiter (T : Transport σ) (o : ClientOptions) (b : Board σ) : Move → Option Instant
  | .poll i =>
      if (b.writeAt T o i).any fun w => w.2.asks w.1 b.session.now then some b.session.now else none
  | _ => none

/-- Whether an operation that is to go on with `p` comes to await a response at once. -/
def comesToAwait (T : Transport σ) (b : Board σ) : Progress → Bool
  | .next (.await _ _) => true
  | .next (.write why line) => (b.sending T line).asks why b.session.now
  | _ => false

/-- A branch has broken down with this message. -/
def Broken (m : String) (b : Board σ) : Prop := ∃ i, b.placeOf i = some (.ended (.crashed m))

variable {T : Transport σ} {o : ClientOptions} {mode : Gather} {b b' : Board σ} {i j : Nat}
variable {m : String}

/-! ## One branch -/

/-- The operation goes on to await a response if its request has been written well. -/
theorem comesToAwait_written (b : Board σ) (c : Connection) (why : Writing)
    (r : Except ClientError Unit) :
    b.comesToAwait T (c.written why r).2 = (why.requestId.isSome && r.isOk) := by
  cases why <;> cases r <;> simp [written, fail_eq, comesToAwait, Writing.requestId, Except.isOk,
    Except.toBool]

theorem comesToAwait_settled (b : Board σ) (c : Connection) (purpose : Purpose) (v : Verdict) :
    b.comesToAwait T (c.settled purpose v).2 = false := by
  cases v with
  | refuse | misshapen =>
      rw [settled, fail_eq]
      rfl
  | answer r =>
      cases purpose with
      | answer | listing => rfl
      | opening =>
          rcases opened_cases { c with inFlight := none } r with ⟨e, _, heq⟩ | ⟨info, _, heq⟩
          · simp only [settled, heq, fail_eq]
            rfl
          · simp only [settled, heq]
            rfl

/-- A branch that is driven breaks down where it should await a response until after the end of
the clock. -/
theorem crashed_of_driven {c : Connection} {p : Progress} (hd : Driven T o i b c p b')
    (hthere : (b.placeOf i).isSome) :
    b'.placeOf i = some (.ended (.crashed m)) ↔
      m = clockOverflow ∧ b.comesToAwait T p = true ∧ o.Overruns b.session.now := by
  have hself : ∀ {b₁ : Board σ} {q : Place σ}, b₁.placeOf i = b.placeOf i →
      ((b₁.setPlace i q).placeOf i = some (.ended (.crashed m)) ↔ q = .ended (.crashed m)) := by
    intro b₁ q hsame
    rw [placeOf_setPlace_self q (hsame ▸ hthere), Option.some_inj]
  induction hd with
  | ended | told | stops =>
      refine (hself (q := _) rfl).trans ⟨nofun, ?_⟩
      rintro ⟨-, hawaits, -⟩
      exact nomatch hawaits
  | overflows hover =>
      refine (hself (q := .ended _) rfl).trans ⟨?_, ?_⟩
      · rintro ⟨⟩
        exact ⟨rfl, rfl, hover⟩
      · rintro ⟨rfl, -⟩
        rfl
  | reads hin =>
      refine (hself rfl).trans ⟨nofun, ?_⟩
      rintro ⟨-, -, hover⟩
      exact absurd hover (Nat.not_le.mpr hin)
  | read hin _ _ _ ih =>
      refine (ih hthere hself).trans ⟨?_, ?_⟩
      · rintro ⟨-, -, hover⟩
        exact absurd hover (Nat.not_le.mpr hin)
      · rintro ⟨-, -, hover⟩
        exact absurd hover (Nat.not_le.mpr hin)
  | writes hlater =>
      refine (hself rfl).trans ⟨nofun, ?_⟩
      rintro ⟨-, hawaits, -⟩
      rw [comesToAwait, Sending.asks, hlater, Bool.and_false, Bool.false_and] at hawaits
      exact nomatch hawaits
  | @wrote b b' c c' p' why line hnow hwritten _ ih =>
      have hnext := comesToAwait_written (T := T)
        ((b.setConn c).setWire (b.sending T line).after) c why (b.sending T line).result
      rw [hwritten] at hnext
      refine (ih hthere hself).trans ?_
      rw [hnext, comesToAwait, Sending.asks, hnow, Bool.and_true]
      rfl
  | @stopped b b' c c' p' grace _ hstopped _ ih =>
      have hnext : p' = .ended _ := (congrArg Prod.snd hstopped).symm
      refine (ih hthere hself).trans ?_
      rw [hnext]
      rfl

/-- Nobody awaits where nothing is written. -/
theorem awaiter_of_idle (h : b.writeAt T o i = none) : b.awaiter T o (.poll i) = none := by
  rw [awaiter, h]
  rfl

/-- A branch that starts no operation is at the write that is under way. -/
theorem writeAt_of_place {p : Place σ} (hp : b.placeOf i = some p) (hstarts : b.starts i = none)
    (hwrites : ∀ why s, p ≠ .writing why s) : b.writeAt T o i = none := by
  simp only [writeAt, hstarts, hp]
  cases p with
  | writing why s => exact absurd rfl (hwrites why s)
  | _ => rfl

/-- The write of a branch that has nothing to do has not ended yet. -/
theorem later_of_not_ready {why : Writing} {s : Sending σ} (h : ¬ b.ready i)
    (hwrite : b.writeAt T o i = some (why, s)) : s.ends.any (· ≤ b.session.now) = false := by
  simp only [writeAt, starts_of_not_ready h] at hwrite
  split at hwrite
  · cases hwrite
    exact Bool.eq_false_iff.mpr fun hnow => h ⟨.writing why s, ‹_›, hnow⟩
  · exact nomatch hwrite

theorem awaiter_of_not_ready (h : ¬ b.ready i) : b.awaiter T o (.poll i) = none := by
  cases hwrite : b.writeAt T o i with
  | none => exact awaiter_of_idle hwrite
  | some w =>
      simp [awaiter, hwrite, Sending.asks, later_of_not_ready h hwrite]

theorem not_await_of_begin (o : ClientOptions) (c : Connection) (op : Operation)
    (purpose : Purpose) (id : Nat) : (c.begin o op).2 ≠ .next (.await purpose id) := by
  cases op with
  | connect => cases hs : c.state <;> simp [begin, hs, Connection.start]
  | request | unprintable | listTools | notify =>
      cases hr : c.refusal <;> simp [begin, hr, Connection.start]
  | shutdown | ask =>
      intro h
      cases h

/-- The awaits of a branch that starts its operation are those of the operation. -/
theorem awaiter_of_starts {op : Operation} (h : b.starts i = some op) :
    b.awaiter T o (.poll i) =
      if b.comesToAwait T (b.session.conn.begin o op).2 then some b.session.now else none := by
  simp only [awaiter, writeAt, h]
  cases hp : (b.session.conn.begin o op).2 with
  | ended r => rfl
  | next p =>
      cases p with
      | await purpose id => exact absurd hp (not_await_of_begin o _ op purpose id)
      | write | stop | ask => rfl

/-- Branch `i` has broken down, or it does when it is polled: it should await a response until
after the end of the clock. -/
def Breaks (T : Transport σ) (o : ClientOptions) (m : String) (b : Board σ) (i : Nat) : Prop :=
  b.placeOf i = some (.ended (.crashed m)) ∨
    m = clockOverflow ∧ ∃ t ∈ b.awaiter T o (.poll i), o.Overruns t

theorem not_breaks_of_idle {p : Place σ} (hp : b.placeOf i = some p)
    (hpm : p ≠ .ended (.crashed m)) (hnone : b.awaiter T o (.poll i) = none) :
    ¬ b.Breaks T o m i := by
  rintro (hcrashed | ⟨-, t, ht, -⟩)
  · exact hpm (Option.some.inj (hp.symm.trans hcrashed))
  · rw [hnone] at ht
    exact nomatch ht

/-- What `i` does with the connection decides. -/
theorem breaks_of_driven {p : Place σ} {b₁ : Board σ} {c : Connection} {next : Progress}
    (hp : b.placeOf i = some p) (hpm : p ≠ .ended (.crashed m)) (hd : Driven T o i b₁ c next b')
    (hsame : b₁.placeOf i = b.placeOf i) (hnow : b₁.session.now = b.session.now)
    (hawaits : b.awaiter T o (.poll i)
      = if b₁.comesToAwait T next then some b.session.now else none) :
    b'.placeOf i = some (.ended (.crashed m)) ↔ b.Breaks T o m i := by
  rw [crashed_of_driven hd (by rw [hsame, hp]; rfl), Breaks, hawaits, hp, hnow]
  constructor
  · rintro ⟨rfl, hnext, hover⟩
    exact .inr ⟨rfl, _, by rw [if_pos hnext]; rfl, hover⟩
  · rintro (hcrashed | ⟨rfl, t, ht, hover⟩)
    · exact absurd (Option.some.inj hcrashed) hpm
    · split at ht
      · cases ht
        exact ⟨rfl, ‹_›, hover⟩
      · exact nomatch ht

/-- A branch that goes on breaks down where it should await a response until after the end of the
clock, and nowhere else. -/
theorem crashed_of_goes (h : Goes T o i b b') :
    b'.placeOf i = some (.ended (.crashed m)) ↔ b.Breaks T o m i := by
  have hset : ∀ {p q : Place σ} {b₁ : Board σ}, b.placeOf i = some p →
      p ≠ .ended (.crashed m) → q ≠ .ended (.crashed m) → b.awaiter T o (.poll i) = none →
      ((b₁.setPlace i q).placeOf i = some (.ended (.crashed m)) ↔ b.Breaks T o m i) :=
    fun hp hpm hqm hnone => iff_of_false (fun hq => hqm (eq_of_setPlace hq).symm)
      (not_breaks_of_idle hp hpm hnone)
  cases h with
  | still hnot =>
      rw [Breaks, awaiter_of_not_ready hnot]
      simp
  | rests hp _ hasks _ _ _ hended =>
      have hstarts : b.starts i = none := starts_of_pausing hp hasks
      refine hset hp nofun (fun hq => nomatch hended _ hq) ?_
      exact awaiter_of_idle (writeAt_of_place hp hstarts nofun)
  | rested hp =>
      refine hset hp nofun nofun (awaiter_of_idle ?_)
      exact writeAt_of_place hp (starts_of_place hp nofun id) nofun
  | refused hasks hheld | linesUp hasks hheld =>
      obtain ⟨u, hp⟩ := pausing_of_asks hasks
      have hstarts : b.starts i = none := starts_of_busy hasks hheld
      exact hset hp nofun nofun (awaiter_of_idle (writeAt_of_place hp hstarts nofun))
  | enters hasks hfree hd =>
      obtain ⟨u, hp⟩ := pausing_of_asks hasks
      refine breaks_of_driven hp nofun hd (placeOf_begun b i i) rfl ?_
      exact awaiter_of_starts ((starts_of_free hfree).trans hasks)
  | handed hp hi hd =>
      exact breaks_of_driven hp nofun hd rfl rfl (awaiter_of_starts (starts_of_handed hi hp))
  | wrote hp hnow hd =>
      refine breaks_of_driven hp nofun hd rfl rfl ?_
      have hstarts : b.starts i = none := starts_of_waits hp trivial
      simp only [awaiter, writeAt, hstarts, hp, Option.any_some, Sending.asks, hnow, Bool.and_true,
        comesToAwait_written]
  | read hp _ hd =>
      refine breaks_of_driven hp nofun hd rfl rfl ?_
      rw [comesToAwait_settled, if_neg Bool.false_ne_true]
      exact awaiter_of_idle (writeAt_of_place hp (starts_of_waits hp trivial) nofun)
  | stopped hp _ hd =>
      refine breaks_of_driven hp nofun hd rfl rfl ?_
      exact awaiter_of_idle (writeAt_of_place hp (starts_of_waits hp trivial) nofun)

/-- A drop breaks nobody. -/
theorem crashed_of_drops (h : Drops i b b')
    (hcrashed : b'.placeOf i = some (.ended (.crashed m))) :
    b.placeOf i = some (.ended (.crashed m)) := by
  cases h with
  | gone => exact hcrashed
  | idle | leaves | letsGo => exact nomatch eq_of_setPlace hcrashed

/-! ## The branches of a board -/

theorem broken_of_goes (hs : Sane b) (h : Goes T o i b b') : b'.Broken m ↔
    b.Broken m ∨ m = clockOverflow ∧ ∃ t ∈ b.awaiter T o (.poll i), o.Overruns t := by
  constructor
  · rintro ⟨k, hk⟩
    by_cases hki : k = i
    · subst hki
      exact ((crashed_of_goes h).mp hk).imp_left fun hcrashed => ⟨k, hcrashed⟩
    · rw [placeOf, task_of_goes h hki] at hk
      exact .inl ⟨k, hk⟩
  · rintro (⟨k, hk⟩ | hover)
    · exact ⟨k, (onward_of_goes hs h).1.ended k _ hk⟩
    · exact ⟨i, (crashed_of_goes h).mpr (.inr hover)⟩

theorem broken_of_drops (hs : Sane b) (h : Drops i b b') : b'.Broken m ↔ b.Broken m := by
  constructor
  · rintro ⟨k, hk⟩
    by_cases hki : k = i
    · subst hki
      exact ⟨k, crashed_of_drops h hk⟩
    · rw [placeOf, task_of_drops h hki] at hk
      exact ⟨k, hk⟩
  · rintro ⟨k, hk⟩
    exact ⟨k, (onward_of_drops hs h).ended k _ hk⟩

/-- A move breaks a branch if and only if a response comes to be awaited at it until after the end
of the clock. -/
theorem broken_of_move (hs : Sane b) (move : Move) : (b.move T o move).Broken m ↔
    b.Broken m ∨ m = clockOverflow ∧ ∃ t ∈ b.awaiter T o move, o.Overruns t := by
  rcases move_cases T o b move with
    ⟨i, b₁, rfl, h, heq | hdrop⟩ | ⟨i, rfl, hdrop⟩ | ⟨now, rfl, heq⟩
  · rw [heq, broken_of_goes hs h]
  · rw [broken_of_drops (sane_of_goes hs h) hdrop, broken_of_goes hs h]
  · rw [broken_of_drops hs hdrop]
    simp [awaiter]
  · rw [heq]
    simp [awaiter, Broken, placeOf, setNow]

theorem broken_of_moves (ms : List Move) : ∀ {b : Board σ}, Sane b → ((b.moves T o ms).Broken m ↔
    b.Broken m ∨ m = clockOverflow ∧ ∃ t ∈ b.along T o (awaiter T o) ms, o.Overruns t) := by
  induction ms with
  | nil => simp
  | cons move ms ih =>
      intro b hs
      rw [moves_cons, ih (sane_of_move hs move), broken_of_move hs, or_assoc, ← and_or_left]
      simp only [along_cons, List.mem_append, Option.mem_toList, Option.mem_def, or_and_right,
        exists_or]

theorem not_broken_start (s : Session σ) (branches : List Branch) (m : String) :
    ¬ (start s branches).Broken m := by
  rintro ⟨i, hp⟩
  obtain ⟨u, hu⟩ := placeOf_start hp
  exact nomatch hu

/-! ## Runs -/

/-- A round that no branch stops breaks nobody. -/
theorem broken_of_pass (is : List Nat) : ∀ b : Board σ, (Board.pass T o mode is b).2 = false →
    (Board.pass T o mode is b).1.Broken m → b.Broken m := by
  induction is with
  | nil => exact fun _ _ => id
  | cons i rest ih =>
      intro b hflag hbroken
      simp only [Board.pass] at hflag hbroken
      split at hflag
      · cases hflag
      · rename_i hgoes
        rw [if_neg hgoes] at hbroken
        obtain ⟨k, hk⟩ := ih _ hflag hbroken
        by_cases hki : k = i
        · subst hki
          obtain ⟨t, ht, hplace⟩ := Option.map_eq_some_iff.mp hk
          refine absurd ?_ hgoes
          rw [ht, Option.any_some, Task.stops, hplace]
        · rw [placeOf, task_of_poll b hki] at hk
          exact ⟨k, hk⟩

theorem broken_of_dropAll (hs : Sane b) : (dropAll T b).Broken m ↔ b.Broken m := by
  have hfold : ∀ (is : List Nat) {b : Board σ}, Sane b →
      ((is.foldl (dropAt T) b).Broken m ↔ b.Broken m) := by
    intro is
    induction is with
    | nil => exact fun _ => Iff.rfl
    | cons i rest ih =>
        intro b hs
        have hmove := broken_of_move (T := T) (o := {}) (m := m) hs (.drop i)
        refine (ih (sane_of_move (T := T) (o := {}) hs (.drop i))).trans (hmove.trans ?_)
        simp [awaiter]
  exact hfold _ hs

/-! ## When responses are awaited -/

theorem now_of_passMoves (is : List Nat) : ∀ {b : Board σ} {t : Instant},
    t ∈ b.along T o (awaiter T o) (passMoves T o mode is b) → t = b.session.now := by
  induction is with
  | nil =>
      intro b t ht
      cases ht
  | cons i rest ih =>
      intro b t ht
      rw [passMoves, along_cons] at ht
      rcases List.mem_append.mp ht with hnow | hlater
      · rw [Option.mem_toList, awaiter] at hnow
        split at hnow
        · cases hnow
          rfl
        · cases hnow
      · split at hlater
        · cases hlater
        · exact (ih hlater).trans (now_of_poll b i)

theorem awaits_of_dropMoves (b : Board σ) (is : List Nat) :
    b.along T o (awaiter T o) (is.map .drop) = [] := by
  induction is generalizing b with
  | nil => rfl
  | cons i rest ih => exact ih (b.move T o (.drop i))

/-- The instants at which responses come to be awaited in a run. -/
def runAwaits (T : Transport σ) (o : ClientOptions) (mode : Gather) (deadline : Option Instant)
    (fuel : Nat) (b : Board σ) : List Instant :=
  b.along T o (awaiter T o) (runMoves T o mode deadline fuel b)

/-- What comes to be awaited in a run does so in its first round, at its instant, or in what goes
on from there. -/
theorem awaits_of_pass {deadline : Option Instant} (fuel : Nat) {b' : Board σ} {stopped : Bool}
    {t : Instant} (hpass : Board.pass T o mode (List.range b.tasks.length) b = (b', stopped))
    (ht : t ∈ runAwaits T o mode deadline (fuel + 1) b) :
    t = b.session.now ∨ ∃ clock, b'.sequel deadline stopped = .again clock ∧
      t ∈ runAwaits T o mode deadline fuel (b'.clockTo clock) := by
  have hmoves : b.moves T o (passMoves T o mode (List.range b.tasks.length) b) = b' := by
    rw [← pass_eq_moves, hpass]
  have hclock : ∀ clock : Option Instant,
      b'.along T o (awaiter T o) (clock.toList.map .clock) = [] := fun clock => by
    cases clock <;> rfl
  rw [runAwaits, runMoves_of_pass fuel hpass, along_append, hmoves] at ht
  refine (List.mem_append.mp ht).imp (now_of_passMoves _) fun hlater => ?_
  cases hseq : b'.sequel deadline stopped with
  | done =>
      rw [hseq] at hlater
      dsimp only at hlater
      rw [dropMoves, awaits_of_dropMoves] at hlater
      cases hlater
  | cut clock =>
      rw [hseq] at hlater
      dsimp only at hlater
      rw [along_append, hclock, ← clockTo_eq_moves, dropMoves, awaits_of_dropMoves] at hlater
      cases hlater
  | again clock =>
      rw [hseq] at hlater
      dsimp only at hlater
      rw [along_append, hclock, ← clockTo_eq_moves] at hlater
      exact ⟨clock, rfl, hlater⟩

/-- Branches that are dropped at an enclosing deadline have not broken down. -/
theorem not_broken_of_dropped {deadline : Option Instant} (fuel : Nat) : ∀ {b : Board σ}, Sane b →
    ¬ b.Broken m → (Board.run T o mode deadline fuel b).2 = true →
      ¬ (Board.run T o mode deadline fuel b).1.Broken m := by
  induction fuel with
  | zero => exact fun hs hb _ => (broken_of_dropAll hs).not.mpr hb
  | succ fuel ih =>
      intro b hs hb hflag
      have hpass : (Board.pass T o mode (List.range b.tasks.length) b).2 = false →
          (Board.pass T o mode (List.range b.tasks.length) b).1.Broken m → b.Broken m :=
        broken_of_pass _ b
      have hsane : Sane (Board.pass T o mode (List.range b.tasks.length) b).1 := by
        rw [pass_eq_moves]
        exact sane_of_moves hs _
      generalize hrun : Board.pass T o mode (List.range b.tasks.length) b = passed at hpass hsane
      obtain ⟨b', stopped⟩ := passed
      dsimp only at hpass hsane
      have hlater : ∀ {s clock}, b'.sequel deadline stopped = s → s ≠ .done →
          ¬ (b'.clockTo clock).Broken m := by
        intro s clock hseq hs hbroken
        refine hb (hpass (going_of_sequel hseq hs).1 ?_)
        simpa only [Broken, placeOf_clockTo] using hbroken
      rw [run_of_pass fuel hrun] at hflag ⊢
      cases hseq : b'.sequel deadline stopped with
      | done =>
          rw [hseq] at hflag
          cases hflag
      | cut clock =>
          exact (broken_of_dropAll (sane_of_clockTo hsane clock)).not.mpr (hlater hseq (by simp))
      | again clock =>
          rw [hseq] at hflag
          exact ih (sane_of_clockTo hsane clock) (hlater hseq (by simp)) hflag

theorem now_le_run {deadline : Option Instant} (fuel : Nat)
    (hd : ∀ d, deadline = some d → b.session.now ≤ d) :
    b.session.now ≤ (Board.run T o mode deadline fuel b).1.session.now := by
  cases deadline with
  | none => exact clock_of_unlimited fuel b
  | some d => exact (clock_of_limited mode fuel b (hd d rfl)).1

/-- No response comes to be awaited after the end of a run. -/
theorem now_of_runAwaits {deadline : Option Instant} (fuel : Nat) :
    ∀ {b : Board σ} {t : Instant}, (∀ d, deadline = some d → b.session.now ≤ d) →
    t ∈ runAwaits T o mode deadline fuel b →
      t ≤ (Board.run T o mode deadline fuel b).1.session.now := by
  induction fuel with
  | zero =>
      intro b t _ ht
      rw [runAwaits, runMoves, dropMoves, awaits_of_dropMoves] at ht
      cases ht
  | succ fuel ih =>
      intro b t hd ht
      have hend : t = b.session.now →
          t ≤ (Board.run T o mode deadline (fuel + 1) b).1.session.now := fun h =>
        Nat.le_trans (Nat.le_of_eq h) (now_le_run (fuel + 1) hd)
      cases hpass : Board.pass T o mode (List.range b.tasks.length) b with
      | mk b' stopped =>
      rcases awaits_of_pass fuel hpass ht with hnow | ⟨clock, hseq, hlater⟩
      · exact hend hnow
      · rw [run_of_pass fuel hpass, hseq]
        exact ih (again_of_limited hseq).2 hlater

end Board

/-! ## Branches side by side -/

/-- The instants at which responses come to be awaited by branches side by side. -/
def gatherAwaits (T : Transport σ) (o : ClientOptions) (mode : Gather) (deadline : Option Instant)
    (branches : List Branch) (s : Session σ) : List Instant :=
  (Board.start s branches).along T o (Board.awaiter T o)
    (Board.gatherMoves T o mode deadline branches s)

namespace Program

open Board

theorem mem_of_crashIn {m : String} : ∀ {endings : List Ending},
    crashIn endings = some m → .crashed m ∈ endings
  | .crashed m' :: rest, h => by
      cases h
      exact List.mem_cons_self
  | .returned _ :: rest, h => List.mem_cons_of_mem _ (mem_of_crashIn h)
  | .cancelled :: rest, h => List.mem_cons_of_mem _ (mem_of_crashIn h)

theorem not_mem_of_crashIn {m : String} : ∀ {endings : List Ending},
    crashIn endings = none → .crashed m ∉ endings
  | [], _ => List.not_mem_nil
  | .crashed _ :: _, h => nomatch h
  | .returned _ :: _, h => List.not_mem_cons_of_ne_of_not_mem nofun (not_mem_of_crashIn h)
  | .cancelled :: _, h => List.not_mem_cons_of_ne_of_not_mem nofun (not_mem_of_crashIn h)

end Program

section Gathers

open Board Program

variable {T : Transport σ} {o : ClientOptions} {m : String}

theorem mem_endings_iff {b : Board σ} :
    Ending.crashed m ∈ b.tasks.map Board.ending ↔ b.Broken m := by
  have hending : ∀ t : Task σ, Board.ending t = .crashed m ↔ t.place = .ended (.crashed m) := by
    intro t
    rw [Board.ending]
    split
    · rw [‹t.place = _›]
      exact ⟨congrArg _, Place.ended.inj⟩
    · refine ⟨fun h => ?_, fun h => absurd h (‹∀ e, t.place = .ended e → False› _)⟩
      cases h
  rw [List.mem_map]
  constructor
  · rintro ⟨t, ht, hcrashed⟩
    obtain ⟨i, hi⟩ := List.mem_iff_getElem?.mp ht
    exact ⟨i, (placeOf_of_task hi).trans (congrArg some ((hending t).mp hcrashed))⟩
  · rintro ⟨i, hp⟩
    obtain ⟨t, hi, hplace⟩ := Option.map_eq_some_iff.mp hp
    exact ⟨t, List.mem_of_getElem? hi, (hending t).mpr hplace⟩

/-- Branches side by side break down if and only if one of them should await a response until after
the end of the clock. -/
theorem breaks_of_gather (mode : Gather) (deadline : Option Instant) (branches : List Branch)
    (s : Session σ) : (gather T o mode deadline branches s).2.bind crashIn = some m ↔
      m = clockOverflow ∧ ∃ t ∈ gatherAwaits T o mode deadline branches s, o.Overruns t := by
  have hstart := sane_start s branches
  have hbroken : ∀ m, (Board.run T o mode deadline (passBound branches.length)
      (start s branches)).1.Broken m ↔ m = clockOverflow ∧
        ∃ t ∈ gatherAwaits T o mode deadline branches s, o.Overruns t := by
    intro m
    rw [run_eq_moves, broken_of_moves _ hstart, gatherAwaits, gatherMoves]
    exact or_iff_right (not_broken_start s branches m)
  have hdropped : (Board.run T o mode deadline (passBound branches.length)
      (start s branches)).2 = true → ¬ (Board.run T o mode deadline (passBound branches.length)
        (start s branches)).1.Broken m :=
    not_broken_of_dropped _ hstart (not_broken_start s branches m)
  rw [gather_eq, ← hbroken m]
  generalize Board.run T o mode deadline (passBound branches.length) (start s branches) = done
    at hbroken hdropped
  obtain ⟨b, dropped⟩ := done
  cases dropped with
  | true =>
      refine iff_of_false (fun h => ?_) (hdropped rfl)
      cases h
  | false =>
      show crashIn (b.tasks.map Board.ending) = some m ↔ b.Broken m
      refine ⟨fun h => mem_endings_iff.mp (mem_of_crashIn h), fun h => ?_⟩
      cases hcrash : crashIn (b.tasks.map Board.ending) with
      | none => exact absurd (mem_endings_iff.mpr h) (not_mem_of_crashIn hcrash)
      | some m' =>
          have hm' := ((hbroken m').mp (mem_endings_iff.mp (mem_of_crashIn hcrash))).1
          rw [hm', ((hbroken m).mp h).1]

/-- Every branch has an ending. -/
theorem length_of_gather {mode : Gather} {deadline : Option Instant} {branches : List Branch}
    {s s' : Session σ} {endings : List Ending}
    (h : gather T o mode deadline branches s = (s', some endings)) :
    endings.length = branches.length := by
  have hwork : ∀ ms : List Move, ∀ j,
      ((start s branches).moves T o ms).workOf j = (start s branches).workOf j := fun ms j =>
    keeps_of_moves (Q := fun b => b.workOf j = (start s branches).workOf j)
      (fun b move hb => (workOf_of_move b move j).trans hb) rfl ms
  rw [gather_eq] at h
  obtain ⟨-, hendings⟩ := Prod.mk.inj h
  split at hendings
  · exact nomatch hendings
  · rw [← Option.some.inj hendings, List.length_map, run_eq_moves]
    have hworks : ((start s branches).moves T o (runMoves T o mode deadline
        (passBound branches.length) (start s branches))).tasks.map (·.work)
          = (start s branches).tasks.map (·.work) := by
      refine List.ext_getElem? fun j => ?_
      rw [List.getElem?_map, List.getElem?_map]
      exact hwork _ j
    simpa [Board.start] using congrArg List.length hworks

theorem now_of_gatherAwaits {mode : Gather} {deadline : Option Instant} {branches : List Branch}
    {s : Session σ} {t : Instant} (hd : ∀ d, deadline = some d → s.now ≤ d)
    (ht : t ∈ gatherAwaits T o mode deadline branches s) :
    t ≤ (gather T o mode deadline branches s).1.now := by
  rw [gather_eq]
  exact now_of_runAwaits _ hd ht

end Gathers

/-! ## Programs -/

namespace Program

variable {α : Type} {T : Transport σ} {o : ClientOptions} {deadline : Option Instant}

/-- The instants at which responses come to be awaited in a program, in order. -/
def awaits (T : Transport σ) (o : ClientOptions) (deadline : Option Instant) (p : Program α)
    (s : Session σ) : List Instant :=
  (p.rounds T o deadline s).flatMap fun r => r.1.along T o (Board.awaiter T o) r.2

/-- A program that does not do so of its own accord breaks down if and only if a response comes to
be awaited in it until after the end of the clock. -/
theorem crashed_iff {P : Operation → Prop} {m : String} (p : Program α) : ∀ {s : Session σ},
    p.Only P → ((p.run T o deadline s).2 = .crashed m ↔
      m = clockOverflow ∧ ∃ t ∈ p.awaits T o deadline s, o.Overruns t) := by
  induction p with
  | done a => simp [run, awaits, rounds]
  | crash m => exact fun hp => hp.elim
  | sleep d next ih =>
      intro s hp
      simp only [run, awaits, rounds]
      cases deadline with
      | none => exact ih hp
      | some t =>
          simp only [Option.any_some, decide_eq_true_eq]
          split
          · simp
          · exact ih hp
  | clock next ih => exact fun {s} hp => ih s.now (hp s.now)
  | gather mode branches next ih =>
      intro s hp
      have hfirst := breaks_of_gather (T := T) (o := o) (m := m) mode deadline branches s
      simp only [gatherAwaits] at hfirst
      simp only [run, awaits, rounds, List.flatMap_cons, List.mem_append, or_and_right, exists_or,
        and_or_left, ← hfirst]
      generalize Conformance.gather T o mode deadline branches s = gathered at hfirst ⊢
      obtain ⟨s', endings⟩ := gathered
      cases endings with
      | none => simp
      | some endings =>
          simp only [Option.bind_some] at hfirst ⊢
          cases hcrash : crashIn endings with
          | some m' => simp
          | none => simpa [awaits] using ih endings (hp.2 endings)

/-- No response comes to be awaited after the end of a program. -/
theorem now_of_awaits {t : Instant} (p : Program α) : ∀ {s : Session σ},
    (∀ d, deadline = some d → s.now ≤ d) → t ∈ p.awaits T o deadline s →
      t ≤ (p.run T o deadline s).1.now := by
  induction p with
  | done a | crash m =>
      intro s _ ht
      cases ht
  | sleep d next ih =>
      intro s hd ht
      simp only [run, awaits, rounds] at ht ⊢
      cases deadline with
      | none =>
          refine ih (fun d hd => ?_) ht
          cases hd
      | some d' =>
          simp only [Option.any_some, decide_eq_true_eq] at ht
          dsimp only
          split at ht
          · cases ht
          · rw [if_neg ‹_›]
            refine ih (fun d'' hd'' => ?_) ht
            cases hd''
            exact Nat.not_lt.mp ‹_›
  | clock next ih => exact fun {s} hd ht => ih s.now hd ht
  | gather mode branches next ih =>
      intro s hd ht
      have hclock := clock_of_gather (T := T) (o := o) mode deadline branches s hd
      have hfirst : t ∈ gatherAwaits T o mode deadline branches s → _ := now_of_gatherAwaits hd
      simp only [awaits, rounds, List.flatMap_cons, List.mem_append] at ht
      simp only [run]
      rw [gatherAwaits] at hfirst
      generalize Conformance.gather T o mode deadline branches s = gathered at hclock hfirst ht ⊢
      obtain ⟨s', endings⟩ := gathered
      cases endings with
      | none => exact hfirst (ht.resolve_right List.not_mem_nil)
      | some endings =>
          dsimp only at hclock hfirst ht ⊢
          cases hcrash : crashIn endings with
          | some m =>
              rw [hcrash] at ht
              exact hfirst (ht.resolve_right List.not_mem_nil)
          | none =>
              rw [hcrash] at ht
              have hrest := clock_of_program (T := T) (o := o) deadline (next endings) s' hclock.2
              exact ht.elim (fun h => Nat.le_trans (hfirst h) hrest.1) (ih endings hclock.2)

end Program

end Conformance
