/-
Conformance — when the tests end.

A check that returns has returned from each of its parts in turn (`returns_bind`), so one
that ends with a request, but for what takes no time, returns while the clock can tell
(`inTime_perform`).  The last test of every suite of the catalog is such a check
(`ends_inTime`): whoever passes a suite does so before the end of the clock, however long
the tests may take.
-/
import Conformance.Proofs.Session.Solo
import Conformance.Suite.Catalog

namespace Conformance

variable {σ : Type} {T : Transport σ} {o : ClientOptions} {deadline : Option Instant}

namespace Program

/-- Who returns from two parts has returned from the first. -/
theorem returned_of_bind {α β : Type} {f : α → Program β} {b : β} {s' : Session σ}
    (p : Program α) : ∀ {s : Session σ}, (p.bind f).run T o deadline s = (s', .done b) →
      ∃ mid a, p.run T o deadline s = (mid, .done a) ∧
        (f a).run T o deadline mid = (s', .done b) := by
  induction p with
  | done a => exact fun {s} h => ⟨s, a, rfl, h⟩
  | crash m =>
      intro s h
      cases h
  | sleep d next ih =>
      intro s h
      cases deadline with
      | none => exact ih h
      | some t =>
          simp only [bind, run] at h ⊢
          split at h
          · cases h
          · rw [if_neg ‹_›]
            exact ih h
  | clock next ih => exact fun {s} h => ih s.now h
  | gather mode branches next ih =>
      intro s h
      simp only [bind, run] at h ⊢
      split at h
      · cases h
      · split at h
        · cases h
        · exact ih _ h

end Program

namespace Check

variable {α β : Type}

/-- The check returns `a`, and leaves the session at `s'`. -/
def Returns (T : Transport σ) (o : ClientOptions) (deadline : Option Instant) (c : Check α)
    (s s' : Session σ) (a : α) : Prop :=
  Program.run T o deadline c.run s = (s', .done (.ok a))

/-- The check returns while the clock can tell, if it does. -/
def InTime (T : Transport σ) (o : ClientOptions) (c : Check α) : Prop :=
  ∀ deadline s s' a, c.Returns T o deadline s s' a → s'.now < clockEnd

/-- The check takes no time. -/
def Swift (T : Transport σ) (o : ClientOptions) (c : Check α) : Prop :=
  ∀ deadline s s' a, c.Returns T o deadline s s' a → s'.now = s.now

variable {s s' : Session σ} {c : Check α} {f : α → Check β}

/-! ## Parts -/

theorem returns_bind {b : β} (h : (c >>= f).Returns T o deadline s s' b) :
    ∃ mid a, c.Returns T o deadline s mid a ∧ (f a).Returns T o deadline mid s' b := by
  obtain ⟨mid, r, hfirst, hrest⟩ := Program.returned_of_bind c.run h
  cases r with
  | ok a => exact ⟨mid, a, hfirst, hrest⟩
  | error e => exact nomatch hrest

theorem returns_within {description : String} {a : α}
    (h : (c.within description).Returns T o deadline s s' a) : c.Returns T o deadline s s' a := by
  obtain ⟨mid, r, hfirst, hrest⟩ := Program.returned_of_bind c.run h
  cases r with
  | ok a =>
      cases hrest
      exact hfirst
  | error e => exact nomatch hrest

theorem returns_together {mode : Gather} {ops : List Operation} {outcomes : List Outcome}
    (h : (together mode ops).Returns T o deadline s s' outcomes) :
    ∃ endings, gather T o mode deadline (ops.map fun op => { work := .use op }) s
        = (s', some endings) ∧ Program.crashIn endings = none ∧
      outcomes = endings.filterMap fun e =>
        match e with
        | .returned r => some r
        | _ => none := by
  obtain ⟨mid, outcomes', hgather, hrest⟩ := Program.returned_of_bind (Program.gather _ _ _) h
  cases hrest
  simp only [Program.run] at hgather
  split at hgather
  · cases hgather
  · rename_i s₁ endings hendings
    split at hgather
    · cases hgather
    · cases hgather
      exact ⟨endings, hendings, ‹_›, rfl⟩

theorem swift_pure (a : α) : Swift T o (pure a : Check α) := by
  intro deadline s s' a' h
  cases h
  rfl

theorem swift_ensure (b : Bool) (message : String) : Swift T o (ensure b message) := by
  intro deadline s s' u h
  rw [ensure] at h
  split at h
  · exact swift_pure () deadline s s' u h
  · exact nomatch h

theorem swift_now : Swift T o now := by
  intro deadline s s' t h
  cases h
  rfl

theorem swift_ofExcept (r : Except ClientError α) : Swift T o (ofExcept r) := by
  intro deadline s s' a h
  cases r with
  | ok a => exact swift_pure _ deadline s s' _ h
  | error e => exact nomatch h

theorem swift_bind (hc : Swift T o c) (hf : ∀ a, Swift T o (f a)) : Swift T o (c >>= f) := by
  intro deadline s s' b h
  obtain ⟨mid, a, hfirst, hrest⟩ := returns_bind h
  exact (hf a deadline mid s' b hrest).trans (hc deadline s mid a hfirst)

/-- What ends in time ends in time behind anything. -/
theorem inTime_bind (hf : ∀ a, InTime T o (f a)) : InTime T o (c >>= f) := by
  intro deadline s s' b h
  obtain ⟨mid, a, _, hrest⟩ := returns_bind h
  exact hf a deadline mid s' b hrest

/-- What takes no time makes nobody late. -/
theorem inTime_bind_swift (hc : InTime T o c) (hf : ∀ a, Swift T o (f a)) :
    InTime T o (c >>= f) := by
  intro deadline s s' b h
  obtain ⟨mid, a, hfirst, hrest⟩ := returns_bind h
  rw [hf a deadline mid s' b hrest]
  exact hc deadline s mid a hfirst

theorem inTime_within (description : String) (hc : InTime T o c) :
    InTime T o (c.within description) :=
  fun deadline s s' a h => hc deadline s s' a (returns_within h)

/-! ## Requests -/

theorem inTime_perform {op : Operation} {purpose : Purpose} (hop : op.purpose = some purpose)
    (hopen : purpose ≠ .opening) : InTime T o (perform op) := by
  intro deadline s s' reply h
  obtain ⟨mid, outcomes, htogether, hrest⟩ := returns_bind h
  obtain ⟨endings, hgather, hcrash, rfl⟩ := returns_together htogether
  obtain ⟨e, rfl, hcancelled, hearly⟩ := early_of_request hop hopen hgather
  cases e with
  | cancelled => exact absurd rfl hcancelled
  | crashed m => exact nomatch hcrash
  | returned r =>
      have hsame : s'.now = mid.now := swift_ofExcept r deadline mid s' reply hrest
      cases r with
      | ok reply' => exact hsame ▸ hearly reply' rfl
      | error e => exact nomatch hrest

theorem inTime_listTools : InTime T o listTools :=
  inTime_bind_swift (inTime_perform (show _ = some .listing from rfl) nofun) fun r => by
    cases r <;> exact swift_pure _

theorem inTime_callTool (name : String) (arguments : Json) :
    InTime T o (callTool name arguments) :=
  inTime_bind_swift (inTime_perform (show _ = some .answer from rfl) nofun) fun r => by
    cases r <;> exact swift_pure _

end Check

namespace Suite

open Check

theorem inTime_callHandled (tool : String) (arguments : Json) :
    InTime T o (callHandled tool arguments) :=
  inTime_bind_swift (inTime_within _ (inTime_callTool tool arguments)) fun _ =>
    swift_bind (swift_ensure _ _) fun _ => swift_pure _

/-- Checks of some items end in time when the check of each does. -/
theorem inTime_forEach {α : Type} {f : α → Check Unit} (hf : ∀ x, InTime T o (f x)) :
    ∀ {xs : List α}, xs ≠ [] → InTime T o (forEach xs f)
  | [], hsome => absurd rfl hsome
  | [x], _ => inTime_bind_swift (hf x) fun _ => swift_pure ()
  | _ :: y :: rest, _ => inTime_bind fun _ => inTime_forEach hf (List.cons_ne_nil y rest)

theorem inTime_handleAll (tool : String) {calls : List (String × Json)} (hsome : calls ≠ []) :
    InTime T o (handleAll tool calls) := by
  refine inTime_forEach (fun x => ?_) hsome
  obtain ⟨description, arguments⟩ := x
  exact inTime_bind_swift (inTime_within description (inTime_callHandled tool arguments))
    fun _ => swift_pure ()

theorem inTime_timed {α : Type} {c : Check α} (hc : InTime T o c) : InTime T o (timed c) :=
  inTime_bind fun _ => inTime_bind_swift hc fun _ => swift_bind swift_now fun _ => swift_pure _

theorem Performance.inTime_timeListings : ∀ n, InTime T o (timeListings (n + 1))
  | 0 => inTime_bind_swift (inTime_timed inTime_listTools) fun _ =>
      swift_bind (swift_pure _) fun _ => swift_pure _
  | n + 1 => inTime_bind fun _ =>
      inTime_bind_swift (inTime_timeListings n) fun _ => swift_pure _

theorem Performance.inTime_watchRounds :
    ∀ rounds samples, InTime T o (watchRounds (rounds + 1) samples)
  | 0, _ => inTime_bind_swift (inTime_timeListings 19) fun _ =>
      swift_bind (swift_ensure _ _) fun _ => swift_pure ()
  | rounds + 1, _ => inTime_bind fun _ => inTime_bind fun _ => inTime_watchRounds rounds _

/-- The last test of every suite ends in time. -/
theorem ends_inTime {key : String} {s : Suite} (h : find? key = some s) :
    ∃ t, s.tests.getLast? = some t ∧ ∀ project, InTime T o (t.body project) := by
  have hmem : s ∈ all := List.mem_of_find?_eq_some h
  simp only [all, List.mem_cons, List.not_mem_nil, or_false] at hmem
  rcases hmem with rfl | rfl | rfl | rfl | rfl
  · exact ⟨_, rfl, fun _ => inTime_bind_swift (inTime_callHandled _ _) fun _ => swift_pure ()⟩
  · exact ⟨_, rfl, fun _ => inTime_bind fun _ =>
      inTime_bind_swift inTime_listTools fun _ => swift_ensure _ _⟩
  · exact ⟨_, rfl, fun _ => inTime_handleAll _ (List.map_eq_nil_iff.not.mpr nofun)⟩
  · exact ⟨_, rfl, fun _ => inTime_handleAll _ (List.map_eq_nil_iff.not.mpr nofun)⟩
  · exact ⟨_, rfl, fun _ => Performance.inTime_watchRounds 4 []⟩

end Suite

end Conformance
