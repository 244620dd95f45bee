/-
Conformance — what a program does to a client.

The gatherings that a program comes to are its `rounds`, each with its board at the start
and the moves that are made on it.  From them is told which operations start in a program
(`calls`) and with which errors its branches end (`errors`).

What every gathering keeps a program keeps: `rounds_induction`.
-/
import Conformance.Proofs.Session.Clock

namespace Conformance

open Board

variable {σ : Type}

namespace Board

/-- The error with which a branch has ended. -/
def Task.error (t : Task σ) : Option ClientError :=
  match t.place with
  | .ended (.returned (.error e)) => some e
  | _ => none

/-- The errors with which branches have ended. -/
def errors (b : Board σ) : List ClientError := b.tasks.filterMap Task.error

theorem error_eq_some_iff {t : Task σ} {e : ClientError} :
    Task.error t = some e ↔ t.place = .ended (.returned (.error e)) := by
  rw [Task.error]
  split
  · simp [*]
  · rename_i hne
    exact ⟨nofun, fun hp => absurd hp (hne e)⟩

theorem mem_errors_iff {b : Board σ} {e : ClientError} :
    e ∈ b.errors ↔ ∃ i, b.placeOf i = some (.ended (.returned (.error e))) := by
  rw [errors, List.mem_filterMap]
  constructor
  · rintro ⟨t, ht, he⟩
    obtain ⟨i, hi⟩ := List.mem_iff_getElem?.mp ht
    exact ⟨i, by rw [placeOf_of_task hi, error_eq_some_iff.mp he]⟩
  · rintro ⟨i, hp⟩
    obtain ⟨t, hi, hplace⟩ := Option.map_eq_some_iff.mp hp
    exact ⟨t, List.mem_of_getElem? hi, error_eq_some_iff.mpr hplace⟩

end Board

/-- What branches side by side leave is what their moves lead to. -/
theorem session_of_gather (T : Transport σ) (o : ClientOptions) (mode : Gather)
    (deadline : Option Instant) (branches : List Branch) (s : Session σ) :
    (gather T o mode deadline branches s).1
      = ((Board.start s branches).moves T o
          (gatherMoves T o mode deadline branches s)).session := by
  rw [gather_eq, gatherMoves, ← run_eq_moves]

/-! ## The gatherings of a program -/

namespace Program

variable {α : Type} {T : Transport σ} {o : ClientOptions} {deadline : Option Instant}

/-- The gatherings that a program comes to: the board at the start, and its moves. -/
def rounds (T : Transport σ) (o : ClientOptions) (deadline : Option Instant) :
    Program α → Session σ → List (Board σ × List Move)
  | done _, _ => []
  | crash _, _ => []
  | sleep d next, s =>
      if deadline.any (· < s.now + d) then []
      else next.rounds T o deadline { s with now := s.now + d }
  | clock next, s => (next s.now).rounds T o deadline s
  | gather mode branches next, s =>
      (Board.start s branches, gatherMoves T o mode deadline branches s) ::
        match Conformance.gather T o mode deadline branches s with
        | (_, none) => []
        | (s', some endings) =>
            match crashIn endings with
            | some _ => []
            | none => (next endings).rounds T o deadline s'

/-- The operations that start in a program, in order. -/
def calls (T : Transport σ) (o : ClientOptions) (deadline : Option Instant) (p : Program α)
    (s : Session σ) : List Operation :=
  (p.rounds T o deadline s).flatMap fun r => (r.1.along T o starter r.2).map (·.2)

/-- The errors with which the operations of a program end. -/
def errors (T : Transport σ) (o : ClientOptions) (deadline : Option Instant) (p : Program α)
    (s : Session σ) : List ClientError :=
  (p.rounds T o deadline s).flatMap fun r => (r.1.moves T o r.2).errors

/-- What holds of a session that is left alone, of one gathering and of one stretch after the
other holds of a program with its gatherings. -/
theorem rounds_induction {R : Session σ → List (Board σ × List Move) → Session σ → Prop}
    (hclock : ∀ s now, R s [] { s with now })
    (hgather : ∀ mode branches s,
      R s [(Board.start s branches, gatherMoves T o mode deadline branches s)]
        (Conformance.gather T o mode deadline branches s).1)
    (happend : ∀ s₁ s₂ s₃ l l', R s₁ l s₂ → R s₂ l' s₃ → R s₁ (l ++ l') s₃)
    (p : Program α) : ∀ s, R s (p.rounds T o deadline s) (p.run T o deadline s).1 := by
  induction p with
  | done a => exact fun s => hclock s s.now
  | crash m => exact fun s => hclock s s.now
  | sleep d next ih =>
      intro s
      have hlater := happend s { s with now := s.now + d } _ [] _ (hclock s _)
        (ih { s with now := s.now + d })
      simp only [rounds, run]
      cases deadline with
      | none => exact hlater
      | some t =>
          simp only [Option.any_some, decide_eq_true_eq]
          split
          · exact hclock s _
          · exact hlater
  | clock next ih => exact fun s => ih s.now s
  | gather mode branches next ih =>
      intro s
      have hfirst := hgather mode branches s
      simp only [rounds, run]
      generalize Conformance.gather T o mode deadline branches s = gathered at hfirst ⊢
      obtain ⟨s', endings⟩ := gathered
      cases endings with
      | none => exact hfirst
      | some endings =>
          dsimp only
          cases crashIn endings with
          | some m => exact hfirst
          | none => exact happend s s' _ [_] _ hfirst (ih endings s')

end Program

end Conformance
