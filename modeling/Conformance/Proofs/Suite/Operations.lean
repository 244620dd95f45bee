/-
Conformance — the operations of the tests.

Which operations a test can start is read off its body, part by part: a check names only
operations of a kind if its parts do (`only_bind`, `only_within`, `only_forEach`).  No test of
the catalog names a shutdown (`spares_of_find`), so none stops the server that all of them
share.
-/
import Conformance.Proofs.Session.Stops
import Conformance.Suite.Catalog

namespace Conformance

/-- The operation does not stop the server. -/
def Operation.Spares (op : Operation) : Prop := ∀ grace, op ≠ .shutdown grace

namespace Program

theorem only_of_bind {α β : Type} {P : Operation → Prop} {f : α → Program β}
    (hf : ∀ a, (f a).Only P) {p : Program α} (hp : p.Only P) : (p.bind f).Only P := by
  induction p with
  | done a => exact hf a
  | crash m => exact hp.elim
  | sleep d next ih => exact ih hp
  | clock next ih => exact fun t => ih t (hp t)
  | gather mode branches next ih => exact ⟨hp.1, fun es => ih es (hp.2 es)⟩

end Program

namespace Check

/-- All operations that a check names are `P`. -/
def Only {α : Type} (P : Operation → Prop) (c : Check α) : Prop := Program.Only P c.run

section Parts

variable {α β : Type} {P : Operation → Prop}

theorem only_pure (a : α) : Only P (pure a) := trivial

theorem only_fail (f : Failure) : Only P (fail f : Check α) := trivial

theorem only_bind {c : Check α} {f : α → Check β} (hc : Only P c) (hf : ∀ a, Only P (f a)) :
    Only P (c >>= f) := by
  refine Program.only_of_bind (fun r => ?_) hc
  cases r with
  | ok a => exact hf a
  | error e => exact trivial

theorem only_ensure (b : Bool) (message : String) : Only P (ensure b message) := by
  rw [ensure]
  split
  · exact only_pure ()
  · exact only_fail _

theorem only_within (description : String) {c : Check α} (hc : Only P c) :
    Only P (c.within description) :=
  Program.only_of_bind (fun r => by cases r <;> trivial) hc

theorem only_sleep (d : Duration) : Only P (sleep d) := trivial

theorem only_now : Only P now := fun _ => trivial

theorem only_together (mode : Gather) {ops : List Operation} (hops : ∀ op ∈ ops, P op) :
    Only P (together mode ops) := by
  refine ⟨fun br hbr op hop => ?_, fun _ => trivial⟩
  obtain ⟨named, hmem, rfl⟩ := List.mem_map.mp hbr
  cases hop
  exact hops _ hmem

theorem only_ofExcept (r : Except ClientError α) : Only P (ofExcept r) := by
  cases r <;> trivial

theorem only_perform {op : Operation} (hop : P op) : Only P (perform op) := by
  refine only_bind (only_together .all fun x hmem => ?_) fun outcomes => ?_
  · rw [List.mem_singleton.mp hmem]
    exact hop
  · split
    · exact only_ofExcept _
    · exact only_pure _

theorem only_response {op : Operation} (hop : P op) : Only P (response op) :=
  only_bind (only_perform hop) fun r => by cases r <;> exact only_pure _

theorem only_attempt {c : Check α} (hc : Only P c) : Only P (Suite.Stress.attempt c) :=
  Program.only_of_bind (fun _ => only_pure ()) hc

end Parts

/-! ## The parts of which the tests are made -/

section Spares

variable {α : Type}

theorem spares_listTools : Only Operation.Spares listTools :=
  only_bind (only_perform fun _ => nofun) fun r => by cases r <;> exact only_pure _

theorem spares_callTool (name : String) (arguments : Json) :
    Only Operation.Spares (callTool name arguments) :=
  only_response fun _ => nofun

theorem spares_isConnected : Only Operation.Spares isConnected :=
  only_bind (only_perform fun _ => nofun) fun r => by cases r <;> exact only_pure _

theorem spares_state : Only Operation.Spares state :=
  only_bind (only_perform fun _ => nofun) fun r => by cases r <;> exact only_pure _

end Spares

end Check

namespace Suite

open Check

section Parts

variable {P : Operation → Prop}

theorem only_forEach {α : Type} {f : α → Check Unit} (hf : ∀ x, Only P (f x)) :
    ∀ xs : List α, Only P (forEach xs f)
  | [] => only_pure ()
  | x :: rest => only_bind (hf x) fun _ => only_forEach hf rest

theorem only_timed {α : Type} {c : Check α} (hc : Only P c) : Only P (timed c) :=
  only_bind only_now fun _ => only_bind hc fun _ => only_bind only_now fun _ => only_pure _

end Parts

theorem spares_callHandled (tool : String) (arguments : Json) :
    Only Operation.Spares (callHandled tool arguments) :=
  only_bind (only_within _ (spares_callTool tool arguments)) fun _ =>
    only_bind (only_ensure _ _) fun _ => only_pure _

theorem spares_callWithResult (tool : String) (arguments : Json) :
    Only Operation.Spares (callWithResult tool arguments) :=
  only_bind (spares_callHandled tool arguments) fun r => by
    split
    · exact only_fail _
    · exact only_pure _

theorem spares_handleAll (tool : String) (calls : List (String × Json)) :
    Only Operation.Spares (handleAll tool calls) := by
  refine only_forEach (fun x => ?_) calls
  obtain ⟨description, arguments⟩ := x
  exact only_bind (only_within description (spares_callHandled tool arguments)) fun _ =>
    only_pure ()

theorem spares_listAtOnce (n : Nat) : Only Operation.Spares (listAtOnce n) := by
  refine only_bind (only_together .firstError fun op hmem => ?_) fun outcomes => ?_
  · rw [List.eq_of_mem_replicate hmem]
    exact fun _ => nofun
  · split
    · exact only_fail _
    · exact only_pure _

/-! ## The suites -/

/-- No test of a suite names a shutdown, whatever directory it is given. -/
def Spares (s : Suite) : Prop := ∀ t ∈ s.tests, ∀ project, Only Operation.Spares (t.body project)

theorem Smoke.spares : Smoke.suite.Spares := by
  have hhandles : ∀ tool arguments project, Only Operation.Spares (handles tool arguments project) :=
    fun tool arguments _ => only_bind (spares_callHandled tool arguments) fun _ => only_pure ()
  intro t ht project
  simp only [suite, List.mem_cons, List.not_mem_nil, or_false] at ht
  rcases ht with rfl | rfl | rfl | rfl | rfl | rfl | rfl | rfl | rfl
  · exact only_bind spares_isConnected fun _ => only_bind (only_ensure _ _) fun _ =>
      only_bind spares_state fun _ => only_ensure _ _
  · exact only_bind spares_listTools fun _ => only_bind (only_ensure _ _) fun _ =>
      only_forEach (fun _ => only_ensure _ _) _
  · exact only_bind (spares_callWithResult _ _) fun _ => only_ensure _ _
  · refine only_bind (spares_callWithResult _ _) fun r => ?_
    dsimp only
    split
    · exact only_ensure _ _
    · exact only_pure ()
  · exact only_bind spares_listTools fun _ =>
      only_forEach (fun _ => only_bind (only_ensure _ _) fun _ => only_ensure _ _) _
  · exact only_bind spares_listTools fun _ => only_forEach (fun _ => only_ensure _ _) _
  · exact hhandles _ _ project
  · exact hhandles _ _ project
  · exact hhandles _ _ project

theorem Stress.spares_allGood (outcomes : List Outcome) :
    ∀ n, Only Operation.Spares (allGood n outcomes) := by
  induction outcomes with
  | nil => exact fun _ => only_pure ()
  | cons r rest ih =>
      intro n
      cases r with
      | error e => exact only_fail _
      | ok reply => exact ih (n + 1)

theorem Stress.spares_listRepeatedly (pause : Duration) :
    ∀ n, Only Operation.Spares (listRepeatedly pause n)
  | 0 => only_pure ()
  | n + 1 => only_bind spares_listTools fun _ => by
      have hrest := spares_listRepeatedly pause n
      dsimp only
      split
      · exact only_bind (only_sleep _) fun _ => hrest
      · exact only_bind (only_pure ()) fun _ => hrest

theorem Stress.spares_listUntilDone (start : Instant) :
    ∀ rounds, Only Operation.Spares (listUntilDone start rounds)
  | 0 => only_pure ()
  | rounds + 1 => only_bind only_now fun t => by
      have hrest := spares_listUntilDone start rounds
      split
      · exact only_bind spares_listTools fun _ => only_bind (only_sleep _) fun _ => hrest
      · exact only_pure ()

theorem Stress.spares : Stress.suite.Spares := by
  intro t ht project
  simp only [suite, List.mem_cons, List.not_mem_nil, or_false] at ht
  rcases ht with rfl | rfl | rfl | rfl | rfl | rfl | rfl
  · refine only_bind spares_listTools fun _ => only_bind (only_together .all fun op hmem => ?_)
      fun outcomes => spares_allGood outcomes 0
    rw [List.eq_of_mem_replicate hmem]
    exact fun _ => nofun
  · exact only_bind (only_timed (spares_listRepeatedly 0 20)) fun _ => only_ensure _ _
  · refine only_bind (only_together .all fun op hmem => ?_) fun outcomes => ?_
    · simp only [List.mem_cons, List.not_mem_nil, or_false] at hmem
      rcases hmem with rfl | rfl | rfl <;> exact fun _ => nofun
    · split
      · exact only_fail _
      · exact only_pure ()
  · exact spares_listRepeatedly _ 50
  · exact only_bind only_now fun _ => only_bind (spares_listUntilDone _ 50) fun _ =>
      only_bind spares_listTools fun _ => only_ensure _ _
  · exact only_forEach (fun _ => only_bind (only_within _ (spares_listAtOnce 15)) fun _ =>
      only_sleep _) _
  · exact only_bind (only_forEach (fun _ => only_attempt (spares_callHandled _ _)) _) fun _ =>
      only_bind spares_listTools fun _ => only_ensure _ _

theorem EdgeCases.spares : EdgeCases.suite.Spares := by
  have hhandled : ∀ name tool arguments project,
      Only Operation.Spares ((handled name tool arguments).body project) :=
    fun _ tool arguments project =>
      only_bind (spares_callHandled tool (arguments project)) fun _ => only_pure ()
  intro t ht project
  simp only [suite, List.mem_cons, List.not_mem_nil, or_false] at ht
  rcases ht with rfl | rfl | rfl | rfl | rfl | rfl | rfl | rfl | rfl | rfl
  · exact hhandled _ _ _ _
  · exact spares_handleAll _ _
  · exact hhandled _ _ _ _
  · exact hhandled _ _ _ _
  · exact hhandled _ _ _ _
  · exact hhandled _ _ _ _
  · exact hhandled _ _ _ _
  · exact hhandled _ _ _ _
  · exact hhandled _ _ _ _
  · exact spares_handleAll _ _

theorem BattlePrep.spares : BattlePrep.suite.Spares := by
  have hlookups : ∀ name tool classes project,
      Only Operation.Spares ((lookups name tool classes).body project) :=
    fun _ tool _ _ => spares_handleAll tool _
  intro t ht project
  simp only [suite, List.mem_cons, List.not_mem_nil, or_false] at ht
  rcases ht with rfl | rfl | rfl | rfl | rfl | rfl | rfl | rfl | rfl | rfl
  · exact hlookups _ _ _ _
  · exact hlookups _ _ _ _
  · exact hlookups _ _ _ _
  · exact hlookups _ _ _ _
  · exact hlookups _ _ _ _
  · exact hlookups _ _ _ _
  · exact only_bind (only_within _ (spares_callWithResult _ _)) fun _ =>
      only_bind (only_within _ (spares_callHandled _ _)) fun _ => only_pure ()
  · exact only_forEach (fun _ => only_bind (only_within _ (spares_callWithResult _ _)) fun _ =>
      only_pure ()) _
  · exact hlookups _ _ _ _
  · exact hlookups _ _ _ _

theorem Performance.spares_timeListings : ∀ n, Only Operation.Spares (timeListings n)
  | 0 => only_pure _
  | n + 1 => only_bind (only_timed spares_listTools) fun _ =>
      only_bind (spares_timeListings n) fun _ => only_pure _

theorem Performance.spares_watchRounds :
    ∀ rounds samples, Only Operation.Spares (watchRounds rounds samples)
  | 0, _ => only_pure ()
  | rounds + 1, _ => only_bind (spares_timeListings 20) fun _ =>
      only_bind (only_ensure _ _) fun _ => spares_watchRounds rounds _

theorem Performance.spares : Performance.suite.Spares := by
  intro t ht project
  simp only [suite, List.mem_cons, List.not_mem_nil, or_false] at ht
  rcases ht with rfl | rfl | rfl | rfl | rfl | rfl | rfl | rfl | rfl
  · exact only_bind (only_timed spares_listTools) fun _ => only_ensure _ _
  · exact only_bind (spares_timeListings 10) fun _ => only_bind (only_ensure _ _) fun _ =>
      only_ensure _ _
  · exact only_bind spares_listTools fun _ => only_bind (only_ensure _ _) fun _ => only_ensure _ _
  · exact only_bind spares_listTools fun _ => only_ensure _ _
  · exact only_bind (only_timed spares_listTools) fun _ =>
      only_bind (only_timed (spares_listAtOnce 5)) fun _ => only_ensure _ _
  · exact only_bind (spares_timeListings 5) fun _ => only_bind (spares_timeListings 10) fun _ =>
      only_ensure _ _
  · exact only_bind (only_timed (spares_callHandled _ _)) fun _ => only_ensure _ _
  · exact only_bind (only_timed (spares_callHandled _ _)) fun _ => only_ensure _ _
  · exact spares_watchRounds 5 []

/-- No suite of the catalog stops the server. -/
theorem spares_of_find {key : String} {s : Suite} (h : find? key = some s) : s.Spares := by
  have hmem : s ∈ all := List.mem_of_find?_eq_some h
  simp only [all, List.mem_cons, List.not_mem_nil, or_false] at hmem
  rcases hmem with rfl | rfl | rfl | rfl | rfl
  · exact Smoke.spares
  · exact Stress.spares
  · exact EdgeCases.spares
  · exact BattlePrep.spares
  · exact Performance.spares

end Suite

end Conformance
