/-
Conformance — the schedule that runs.

The schedule polls the branches in their order, round after round, and lets time pass
between the rounds when none of them can go on.  What follows a round depends on the board
that it leaves and on the deadline, and on nothing else: the branches are done, or those
that are left are dropped, or they are polled again (`sequel`).  Of a run that is all there
is to know (`run_of_pass`): what a round keeps, and the clock, and a drop, a run keeps.

The moves of a run can be told (`runMoves`), so a run is one of the lists of moves under
which everything is proved of branches side by side (`run_eq_moves`).
-/
import Conformance.Proofs.Session.Moves

namespace Conformance

variable {σ : Type}

namespace Board

/-! ## The moves of a run -/

/-- The polls of a round. -/
def passMoves (T : Transport σ) (o : ClientOptions) (mode : Gather) :
    List Nat → Board σ → List Move
  | [], _ => []
  | i :: rest, b =>
      .poll i ::
        (if ((poll T o b i).tasks[i]?).any (Task.stops mode) then []
        else passMoves T o mode rest (poll T o b i))

/-- The drops of all branches. -/
def dropMoves (b : Board σ) : List Move := (List.range b.tasks.length).map .drop

/-- The moves of a run. -/
def runMoves (T : Transport σ) (o : ClientOptions) (mode : Gather) (deadline : Option Instant) :
    Nat → Board σ → List Move
  | 0, b => dropMoves b
  | fuel + 1, b =>
      let b' := (Board.pass T o mode (List.range b.tasks.length) b).1
      let stopped := (Board.pass T o mode (List.range b.tasks.length) b).2
      passMoves T o mode (List.range b.tasks.length) b ++
        if stopped || b'.tasks.all Task.isEnded then dropMoves b'
        else if deadline.any (· ≤ b'.session.now) then dropMoves b'
        else if b'.handedOver then runMoves T o mode deadline fuel b'
        else
          match b'.nextWake, deadline with
          | none, none => dropMoves b'
          | none, some d => .clock d :: dropMoves b'
          | some wake, none => .clock wake :: runMoves T o mode deadline fuel (b'.setNow wake)
          | some wake, some d =>
              if d < wake then .clock d :: dropMoves b'
              else .clock wake :: runMoves T o mode deadline fuel (b'.setNow wake)

/-- The moves that are made on branches side by side. -/
def gatherMoves (T : Transport σ) (o : ClientOptions) (mode : Gather) (deadline : Option Instant)
    (branches : List Branch) (s : Session σ) : List Move :=
  runMoves T o mode deadline (passBound branches.length) (start s branches)

/-! ## What follows a round -/

/-- What follows the polls of a round.  The clock goes on before that if it is given an instant. -/
inductive Sequel where
  /-- The branches are done. -/
  | done
  /-- Those that have not ended are dropped. -/
  | cut (clock : Option Instant)
  /-- The next round. -/
  | again (clock : Option Instant)

/-- What follows a round that leaves board `b`; `stopped` says that a branch has ended it. -/
def sequel (deadline : Option Instant) (stopped : Bool) (b : Board σ) : Sequel :=
  if stopped || b.tasks.all Task.isEnded then .done
  else if deadline.any (· ≤ b.session.now) then .cut none
  else if b.handedOver then .again none
  else
    match b.nextWake, deadline with
    | none, none => .cut none
    | none, some d => .cut (some d)
    | some wake, none => .again (some wake)
    | some wake, some d => if d < wake then .cut (some d) else .again (some wake)

def clockTo (b : Board σ) : Option Instant → Board σ
  | none => b
  | some now => b.setNow now

section Sequels

variable {deadline : Option Instant} {b : Board σ} {stopped : Bool}

theorem clockTo_eq_moves {T : Transport σ} {o : ClientOptions} (b : Board σ)
    (clock : Option Instant) :
    b.clockTo clock = b.moves T o (clock.toList.map .clock) := by
  cases clock <;> rfl

theorem placeOf_clockTo (b : Board σ) (clock : Option Instant) (i : Nat) :
    (b.clockTo clock).placeOf i = b.placeOf i := by
  cases clock <;> rfl

theorem sane_of_clockTo (hs : Sane b) (clock : Option Instant) : Sane (b.clockTo clock) := by
  cases clock with
  | none => exact hs
  | some now => exact sane_congr (b := b) rfl rfl (fun _ => rfl) hs

theorem sequel_eq_done_iff :
    b.sequel deadline stopped = .done ↔ (stopped || b.tasks.all Task.isEnded) = true := by
  simp only [sequel]
  split
  · exact iff_of_true rfl ‹_›
  · refine iff_of_false ?_ ‹_›
    repeat' split
    all_goals simp

/-- Where something follows, no branch has ended the round, and not all have ended. -/
theorem going_of_sequel {s : Sequel} (h : b.sequel deadline stopped = s) (hs : s ≠ .done) :
    stopped = false ∧ b.tasks.all Task.isEnded = false := by
  rw [← Bool.or_eq_false_iff, ← Bool.not_eq_true]
  exact fun hover => hs (h.symm.trans (sequel_eq_done_iff.mpr hover))

/-- Without a deadline branches are cut short only where nothing would wake them. -/
theorem stuck_of_cut {clock : Option Instant} (h : b.sequel none stopped = .cut clock) :
    clock = none ∧ b.handedOver = false ∧ b.nextWake = none := by
  simp only [sequel, Option.any_none, Bool.false_eq_true, if_false] at h
  split at h
  · cases h
  split at h
  · cases h
  cases hwake : b.nextWake with
  | none =>
      rw [hwake] at h
      cases h
      exact ⟨rfl, Bool.eq_false_iff.mpr ‹_›, rfl⟩
  | some wake =>
      rw [hwake] at h
      cases h

/-- Branches are polled again where one has been handed the connection, or when one wakes. -/
theorem again_cases {clock : Option Instant} (h : b.sequel none stopped = .again clock) :
    clock = none ∧ b.handedOver = true ∨ ∃ wake, clock = some wake ∧ b.nextWake = some wake := by
  simp only [sequel, Option.any_none, Bool.false_eq_true, if_false] at h
  split at h
  · cases h
  split at h
  · cases h
    exact .inl ⟨rfl, ‹_›⟩
  cases hwake : b.nextWake with
  | none =>
      rw [hwake] at h
      cases h
  | some wake =>
      rw [hwake] at h
      cases h
      exact .inr ⟨wake, rfl, rfl⟩

/-- What a deadline changes: it cuts short what would go on behind it. -/
theorem sequel_limited (d : Instant) :
    b.sequel (some d) stopped =
      match b.sequel none stopped with
      | .done => .done
      | .cut _ => .cut (if d ≤ b.session.now then none else some d)
      | .again clock =>
          if d ≤ b.session.now then .cut none
          else if d < (b.clockTo clock).session.now then .cut (some d)
          else .again clock := by
  simp only [sequel, Option.any_some, Option.any_none, decide_eq_true_eq, Bool.false_eq_true,
    if_false]
  split
  · rfl
  by_cases hhanded : b.handedOver = true
  · have hahead : ¬ d ≤ b.session.now → ¬ d < (b.clockTo none).session.now :=
      fun h hlt => h (Nat.le_of_lt hlt)
    rw [if_pos hhanded, if_pos hhanded]
    dsimp only
    split
    · rfl
    · rw [if_neg (hahead ‹_›)]
  · rw [if_neg hhanded, if_neg hhanded]
    cases b.nextWake with
    | none => split <;> rfl
    | some wake => rfl

/-- Where branches are polled again the deadline has made no difference, and has not passed. -/
theorem again_of_limited {clock : Option Instant}
    (h : b.sequel deadline stopped = .again clock) :
    b.sequel none stopped = .again clock ∧
      ∀ d, deadline = some d → (b.clockTo clock).session.now ≤ d := by
  cases deadline with
  | none => exact ⟨h, nofun⟩
  | some d =>
      rw [sequel_limited] at h
      cases hseq : b.sequel none stopped with
      | done | cut =>
          rw [hseq] at h
          cases h
      | again clock' =>
          rw [hseq] at h
          dsimp only at h
          split at h
          · cases h
          split at h
          · cases h
          cases h
          refine ⟨rfl, fun d' hd => ?_⟩
          cases hd
          exact Nat.not_lt.mp ‹_›

/-- By cases on what follows a round. -/
theorem sequel_elim {α : Type} (done : α) (cut again : Option Instant → α) :
    (if stopped || b.tasks.all Task.isEnded then done
      else if deadline.any (· ≤ b.session.now) then cut none
      else if b.handedOver then again none
      else
        match b.nextWake, deadline with
        | none, none => cut none
        | none, some d => cut (some d)
        | some wake, none => again (some wake)
        | some wake, some d => if d < wake then cut (some d) else again (some wake)) =
      match b.sequel deadline stopped with
      | .done => done
      | .cut clock => cut clock
      | .again clock => again clock := by
  simp only [sequel]
  split
  · rfl
  split
  · rfl
  split
  · rfl
  cases b.nextWake with
  | none => cases deadline <;> rfl
  | some wake =>
      cases deadline with
      | none => rfl
      | some d =>
          dsimp only
          split <;> rfl

end Sequels

/-! ## Runs -/

section Runs

variable {T : Transport σ} {o : ClientOptions} {mode : Gather} {deadline : Option Instant}
variable {b b' : Board σ} {stopped : Bool}

theorem gather_eq (mode : Gather) (deadline : Option Instant) (branches : List Branch)
    (s : Session σ) :
    gather T o mode deadline branches s =
      let r := run T o mode deadline (passBound branches.length) (start s branches)
      (r.1.session, if r.2 then none else some (r.1.tasks.map ending)) := by
  rw [gather, List.length_map]
  rfl

theorem run_of_pass (fuel : Nat)
    (hpass : Board.pass T o mode (List.range b.tasks.length) b = (b', stopped)) :
    Board.run T o mode deadline (fuel + 1) b =
      match b'.sequel deadline stopped with
      | .done => (dropAll T b', false)
      | .cut clock => (dropAll T (b'.clockTo clock), true)
      | .again clock => Board.run T o mode deadline fuel (b'.clockTo clock) := by
  rw [← sequel_elim (dropAll T b', false), Board.run, hpass]
  rfl

theorem runMoves_of_pass (fuel : Nat)
    (hpass : Board.pass T o mode (List.range b.tasks.length) b = (b', stopped)) :
    runMoves T o mode deadline (fuel + 1) b =
      passMoves T o mode (List.range b.tasks.length) b ++
        match b'.sequel deadline stopped with
        | .done => dropMoves b'
        | .cut clock => clock.toList.map .clock ++ dropMoves (b'.clockTo clock)
        | .again clock =>
            clock.toList.map .clock ++ runMoves T o mode deadline fuel (b'.clockTo clock) := by
  rw [← sequel_elim (dropMoves b')]
  simp only [runMoves, hpass]
  rfl

theorem pass_eq_moves (is : List Nat) : ∀ b : Board σ,
    (Board.pass T o mode is b).1 = b.moves T o (passMoves T o mode is b) := by
  induction is with
  | nil => exact fun _ => rfl
  | cons i rest ih =>
      intro b
      simp only [Board.pass, passMoves]
      split
      · rfl
      · exact ih (poll T o b i)

theorem dropAll_eq_moves (b : Board σ) : dropAll T b = b.moves T o (dropMoves b) := by
  have hfold : ∀ (is : List Nat) (b : Board σ),
      is.foldl (dropAt T) b = b.moves T o (is.map .drop) := by
    intro is
    induction is with
    | nil => exact fun _ => rfl
    | cons i rest ih => exact fun b => ih (dropAt T b i)
  exact hfold _ b

/-- What runs is a list of moves. -/
theorem run_eq_moves (deadline : Option Instant) (fuel : Nat) : ∀ b : Board σ,
    (Board.run T o mode deadline fuel b).1 = b.moves T o (runMoves T o mode deadline fuel b) := by
  induction fuel with
  | zero => exact fun b => dropAll_eq_moves b
  | succ fuel ih =>
      intro b
      have hmoves : (Board.pass T o mode (List.range b.tasks.length) b).1 = _ := pass_eq_moves _ b
      generalize hpass : Board.pass T o mode (List.range b.tasks.length) b = passed at hmoves
      obtain ⟨b', stopped⟩ := passed
      dsimp only at hmoves
      rw [run_of_pass fuel hpass, runMoves_of_pass fuel hpass, moves_append, ← hmoves]
      cases b'.sequel deadline stopped with
      | done => exact dropAll_eq_moves b'
      | cut clock =>
          dsimp only
          rw [moves_append, ← clockTo_eq_moves, ← dropAll_eq_moves]
      | again clock =>
          dsimp only
          rw [moves_append, ← clockTo_eq_moves, ih]

end Runs

end Board

end Conformance
