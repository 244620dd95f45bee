/-
Conformance — what passes the checks of the scan.

A check returns exactly when its parts do, one after the other
(`returns_bind_iff`), so whether a check of the scan passes is a matter of the
one call that it makes and of the response that the call gives (`Scans`).

`scan_checks` gives the verdicts of both checks by that response, over every
run of tests of the smoke suite at any server.  A result without a content
passes the one, and a content of which nothing is read passes the other;
`scan_checks_of_poor_server` is a server that passes both that way.
-/
import Conformance.Proofs.Demo.Notifications
import Conformance.Proofs.Run.Abort
import Conformance.Proofs.Suite.Attended
import Conformance.Proofs.Suite.Timing
import Conformance.Proofs.Wire.Content

namespace Conformance

variable {σ : Type} {T : Transport σ} {o : ClientOptions} {deadline : Option Instant}

namespace Check

variable {α β : Type} {s s' : Session σ} {c : Check α} {f : α → Check β}

/-! ## Returning -/

theorem returns_bind_iff {b : β} : (c >>= f).Returns T o deadline s s' b ↔
    ∃ mid a, c.Returns T o deadline s mid a ∧ (f a).Returns T o deadline mid s' b := by
  refine ⟨returns_bind, ?_⟩
  rintro ⟨mid, a, hfirst, hrest⟩
  refine (Program.run_bind _ c.run s).trans ?_
  rw [hfirst]
  exact hrest

theorem returns_pure_iff {a b : α} :
    (pure a : Check α).Returns T o deadline s s' b ↔ s' = s ∧ b = a := by
  constructor
  · intro h
    cases h
    exact ⟨rfl, rfl⟩
  · rintro ⟨rfl, rfl⟩
    rfl

theorem not_returns_fail {e : Failure} {a : α} :
    ¬ (fail e : Check α).Returns T o deadline s s' a := fun h => nomatch h

theorem returns_ensure_iff {b : Bool} {message : String} {u : Unit} :
    (ensure b message).Returns T o deadline s s' u ↔ b = true ∧ s' = s := by
  cases b with
  | false => simpa [ensure] using not_returns_fail
  | true => simp [ensure, returns_pure_iff]

theorem returns_within_iff {description : String} {a : α} :
    (c.within description).Returns T o deadline s s' a ↔ c.Returns T o deadline s s' a := by
  refine ⟨returns_within, fun h => ?_⟩
  refine (Program.run_bind _ c.run s).trans ?_
  rw [h]
  rfl

/-- A request returns the reply that it ends with. -/
theorem returns_perform_iff {op : Operation} {purpose : Purpose} {reply : Reply}
    (hop : op.purpose = some purpose) (hopen : purpose ≠ .opening) :
    (perform op).Returns T o deadline s s' reply ↔
      gather T o .all deadline [{ work := .use op }] s = (s', some [.returned (.ok reply)]) := by
  constructor
  · intro h
    obtain ⟨mid, outcomes, htogether, hrest⟩ := returns_bind h
    obtain ⟨endings, hgather, hcrash, rfl⟩ := returns_together htogether
    obtain ⟨e, rfl, hcancelled, -⟩ := early_of_request hop hopen hgather
    cases e with
    | cancelled => exact absurd rfl hcancelled
    | crashed m => exact nomatch hcrash
    | returned r =>
        cases r with
        | error e => exact nomatch hrest
        | ok reply' =>
            obtain ⟨rfl, rfl⟩ := returns_pure_iff.mp hrest
            exact hgather
  · intro h
    show Program.run T o deadline (.gather .all [{ work := .use op }] _) s = _
    rw [Program.run, h]
    rfl

end Check

namespace Suite

open Check

variable {s s' : Session σ} {tool : String} {arguments : Json} {r : Wire.Response}

/-! ## Calls -/

/-- A call returns the response that it ends with. -/
theorem returns_callTool_iff (hr : r ≠ { id := 0 }) :
    (callTool tool arguments).Returns T o deadline s s' r ↔
      gather T o .all deadline [{ work := .use (.callTool tool arguments) }] s
        = (s', some [.returned (.ok (.response r))]) := by
  have hperform : ∀ {mid reply},
      (perform (.callTool tool arguments)).Returns T o deadline s mid reply ↔
        gather T o .all deadline [{ work := .use (.callTool tool arguments) }] s
          = (mid, some [.returned (.ok reply)]) := returns_perform_iff rfl nofun
  constructor
  · intro h
    obtain ⟨mid, reply, hfirst, hrest⟩ := returns_bind h
    cases reply with
    | response r' =>
        obtain ⟨rfl, rfl⟩ := returns_pure_iff.mp hrest
        exact hperform.mp hfirst
    | _ => exact absurd (returns_pure_iff.mp hrest).2 hr
  · intro h
    exact returns_bind_iff.mpr ⟨s', .response r, hperform.mpr h, returns_pure_iff.mpr ⟨rfl, rfl⟩⟩

theorem returns_callHandled_iff : (callHandled tool arguments).Returns T o deadline s s' r ↔
    (r.result.isSome || r.error.isSome) = true ∧
      gather T o .all deadline [{ work := .use (.callTool tool arguments) }] s
        = (s', some [.returned (.ok (.response r))]) := by
  simp only [callHandled, returns_bind_iff, returns_within_iff, returns_ensure_iff,
    returns_pure_iff]
  constructor
  · rintro ⟨mid, r', hcall, _, _, ⟨hshape, rfl⟩, rfl, rfl⟩
    exact ⟨hshape, (returns_callTool_iff (by rintro rfl; exact nomatch hshape)).mp hcall⟩
  · rintro ⟨hshape, hgather⟩
    exact ⟨s', r, (returns_callTool_iff (by rintro rfl; exact nomatch hshape)).mpr hgather,
      s', (), ⟨hshape, rfl⟩, rfl, rfl⟩

theorem returns_callWithResult_iff : (callWithResult tool arguments).Returns T o deadline s s' r ↔
    r.isSuccess = true ∧ gather T o .all deadline [{ work := .use (.callTool tool arguments) }] s
      = (s', some [.returned (.ok (.response r))]) := by
  simp only [callWithResult, returns_bind_iff, returns_callHandled_iff, Wire.Response.isSuccess]
  constructor
  · rintro ⟨mid, r', ⟨hshape, hgather⟩, hrest⟩
    cases herror : r'.error with
    | some e =>
        rw [herror] at hrest
        exact absurd hrest not_returns_fail
    | none =>
        rw [herror] at hrest hshape
        obtain ⟨rfl, rfl⟩ := returns_pure_iff.mp hrest
        exact ⟨by simpa [herror] using hshape, hgather⟩
  · rintro ⟨hsuccess, hgather⟩
    obtain ⟨hresult, herror⟩ := Bool.and_eq_true_iff.mp hsuccess
    refine ⟨s', r, ⟨by rw [hresult, Bool.true_or], hgather⟩, ?_⟩
    rw [Option.isNone_iff_eq_none.mp herror]
    exact returns_pure_iff.mpr ⟨rfl, rfl⟩

/-- The call gives the response `r` before the deadline. -/
def Answered (T : Transport σ) (o : ClientOptions) (deadline : Option Instant) (tool : String)
    (arguments : Json) (s : Session σ) (r : Wire.Response) : Prop :=
  (gather T o .all deadline [{ work := .use (.callTool tool arguments) }] s).2
    = some [.returned (.ok (.response r))]

/-- A check of the result of one call. -/
theorem returns_check_iff {judge : Wire.Response → Check Unit} {Good : Wire.Response → Prop}
    (hjudge : ∀ r (s s' : Session σ), (judge r).Returns T o deadline s s' () ↔ Good r ∧ s' = s) :
    (∃ s', (callWithResult tool arguments >>= judge).Returns T o deadline s s' ()) ↔
      ∃ r, Answered T o deadline tool arguments s r ∧ r.isSuccess = true ∧ Good r := by
  simp only [returns_bind_iff, returns_callWithResult_iff, hjudge]
  constructor
  · rintro ⟨_, mid, r, ⟨hsuccess, hgather⟩, hgood, -⟩
    exact ⟨r, congrArg Prod.snd hgather, hsuccess, hgood⟩
  · rintro ⟨r, hanswered, hsuccess, hgood⟩
    exact ⟨_, _, r, ⟨hsuccess, Prod.ext rfl hanswered⟩, hgood, rfl⟩

/-! ## The two checks -/

/-- What passes the first check: the content is a list, if there is one. -/
def NoOtherContent (r : Wire.Response) : Prop :=
  ∀ v, r.resultMember "content" = some v → v.isArray = true

/-- What passes the second check: of the entries, if all are readable and there is one, one carries
a text. -/
def SomeText (r : Wire.Response) : Prop :=
  ∀ xs, r.resultMember "content" = some (.arr xs) → (∀ x ∈ xs, Wire.Content.Readable x) →
    xs ≠ [] → ∃ x ∈ xs, (Wire.Content.carried? x).isSome = true

theorem contentIsList_iff : Smoke.contentIsList r = true ↔ NoOtherContent r := by
  rw [Smoke.contentIsList, NoOtherContent]
  cases r.resultMember "content" <;> simp

/-- Where something is read, some entry of it has a text exactly when some document carries one. -/
theorem any_text_iff {xs : List Json} (hxs : r.resultMember "content" = some (.arr xs))
    (hread : ∀ x ∈ xs, Wire.Content.Readable x) :
    (r.content.any fun c => c.text.isSome) = true ↔
      ∃ x ∈ xs, (Wire.Content.carried? x).isSome = true := by
  have htexts := Wire.Content.texts_of_records (Wire.Response.content_of_readable hxs hread)
  have hnil := congrArg (· = []) htexts
  simp only [List.filterMap_eq_nil_iff, eq_iff_iff] at hnil
  simpa [Option.isSome_iff_ne_none] using not_congr hnil

theorem someText_iff :
    SomeText r ↔ (r.content ≠ [] → (r.content.any fun c => c.text.isSome) = true) := by
  constructor
  · intro h hne
    rw [Ne, Wire.Response.content_eq_nil_iff] at hne
    push Not at hne
    obtain ⟨xs, hxs, hsome, hread⟩ := hne
    exact (any_text_iff hxs hread).mpr (h xs hxs hread hsome)
  · intro h xs hxs hread hsome
    refine (any_text_iff hxs hread).mp (h fun hnil => ?_)
    rcases Wire.Response.content_eq_nil_iff.mp hnil xs hxs with hnone | ⟨x, hx, hbad⟩
    · exact hsome hnone
    · exact hbad (hread x hx)

theorem returns_scan_iff {project : String} :
    (∃ s', (Smoke.scan project).Returns T o deadline s s' ()) ↔
      ∃ r, Answered T o deadline "scan_dependencies" (projectArgument project) s r ∧
        r.isSuccess = true ∧ NoOtherContent r :=
  returns_check_iff fun r _ _ => by rw [returns_ensure_iff, contentIsList_iff]

theorem returns_scanFormat_iff {project : String} :
    (∃ s', (Smoke.scanFormat project).Returns T o deadline s s' ()) ↔
      ∃ r, Answered T o deadline "scan_dependencies" (projectArgument project) s r ∧
        r.isSuccess = true ∧ SomeText r := by
  refine returns_check_iff fun r s s' => ?_
  rw [someText_iff]
  cases hcontent : r.content with
  | nil => simp [returns_pure_iff]
  | cons c cs => simp [returns_ensure_iff]

end Suite

namespace Runner

open Suite

/-- The scan of a test that starts here gives the response `r` within the limit of the test. -/
def Scans (p : RunPlan σ) (s : Session σ) (r : Wire.Response) : Prop :=
  Answered p.transport p.client (some (limitOf p s)) "scan_dependencies"
    (projectArgument p.project) s r

theorem passed_runTest_iff {p : RunPlan σ} {t : TestCase} {s : Session σ} :
    (runTest p t s).2.passed = true ↔
      ∃ s', (t.body p.project).Returns p.transport p.client (some (limitOf p s)) s s' () := by
  rw [runTest_eq, passed_resultOf_iff]
  exact ⟨fun h => ⟨_, Prod.ext rfl h⟩, fun ⟨s', h⟩ => congrArg Prod.snd h⟩

/-- The smoke suite has one body under each of the two names. -/
theorem body_of_smoke {t : TestCase} (ht : t ∈ Smoke.suite.tests) :
    (t.name = "scan_dependencies_tool" → t.body = Smoke.scan) ∧
      (t.name = "scan_dependencies_response_format" → t.body = Smoke.scanFormat) := by
  simp only [Smoke.suite, List.mem_cons, List.not_mem_nil, or_false] at ht
  rcases ht with rfl | rfl | rfl | rfl | rfl | rfl | rfl | rfl | rfl <;> simp

/-- In a run of tests of the smoke suite, the check of the scan passes exactly when its call gives
a result that has a list for its content, or has none.  The check of its format passes exactly when
its call gives a result whose entries, if there are any and all are readable, include one that
carries a text. -/
theorem scan_checks (p : RunPlan σ) (name : String) (tests : List TestCase) (runner : Runner σ)
    (htests : ∀ t ∈ tests, t ∈ Smoke.suite.tests) :
    ∃ suite : SuiteResult, (runSuite p name tests runner).1.results = runner.results ++ [suite] ∧
      ∀ i result, suite.tests[i]? = some result →
        (result.name = "scan_dependencies_tool" →
          (result.passed = true ↔ ∃ r, Scans p (sessionOf p tests runner.session i) r ∧
            r.isSuccess = true ∧ NoOtherContent r)) ∧
        (result.name = "scan_dependencies_response_format" →
          (result.passed = true ↔ ∃ r, Scans p (sessionOf p tests runner.session i) r ∧
            r.isSuccess = true ∧ SomeText r)) := by
  have hc := course_of_runTests p tests runner.session
  refine ⟨_, results_of_runSuite .., fun i result hresult => ?_⟩
  obtain ⟨t, ht, rfl⟩ := hc.results i result hresult
  obtain ⟨hscan, hformat⟩ := body_of_smoke (htests t (List.mem_of_getElem? ht))
  have hname : (runTest p t (sessionOf p tests runner.session i)).2.name = t.name :=
    (judged_of_test p t _).name
  rw [hname, passed_runTest_iff]
  refine ⟨fun h => ?_, fun h => ?_⟩
  · rw [hscan h]
    exact Suite.returns_scan_iff
  · rw [hformat h]
    exact Suite.returns_scanFormat_iff

/-- What a poor server has to say: a result without a content, and a content whose only text is a
number. -/
def poorLines : List Arrival :=
  [⟨1, .ok (.line "\x7b\"id\":1,\"result\":\x7b\x7d\x7d")⟩,
    ⟨2, .ok (.line "\x7b\"id\":2,\"result\":\x7b\"content\":[\x7b\"text\":5\x7d]\x7d\x7d")⟩]

/-- What the scan of a test that starts here gives, as a text. -/
def scanText? (p : RunPlan σ) (s : Session σ) : Option String :=
  match (gather p.transport p.client .all (some (limitOf p s))
    [{ work := .use (.callTool "scan_dependencies" (projectArgument p.project)) }] s).2 with
  | some [.returned (.ok (.response r))] => r.result.map Json.print
  | _ => none

theorem text_of_scans {p : RunPlan σ} {s : Session σ} {r : Wire.Response} (h : Scans p s r) :
    r.result.map Json.print = scanText? p s := by
  rw [Scans, Answered] at h
  rw [scanText?, h]

/-- Both checks pass at a server that gives no content to the one and no text to the other. -/
theorem scan_checks_of_poor_server :
    let p : RunPlan (List Arrival) :=
      { transport := queued, client := { requestTimeout := 5 }, runner := { testTimeout := 9 }
        project := "" }
    let tests := (Smoke.suite.tests.drop 2).take 2
    let r : Runner (List Arrival) :=
      { session := { conn := { state := .ready }, wire := poorLines } }
    ∃ suite, (runSuite p "s" tests r).1.results = [suite] ∧
      suite.tests.map (fun t => (t.name, t.passed))
        = [("scan_dependencies_tool", true), ("scan_dependencies_response_format", true)] ∧
      (∃ x, Scans p (sessionOf p tests r.session 0) x ∧
        x.result.map Json.print = some "\x7b\x7d") ∧
      ∃ x, Scans p (sessionOf p tests r.session 1) x ∧
        x.result.map Json.print = some "\x7b\"content\":[\x7b\"text\":5\x7d]\x7d" := by
  intro p tests r
  obtain ⟨suite, hresults, hchecks⟩ := scan_checks p "s" tests r (by simp [tests, Smoke.suite])
  have hpassed : (runSuite p "s" tests r).1.results.map
      (fun s => s.tests.map fun t => (t.name, t.passed))
        = [[("scan_dependencies_tool", true), ("scan_dependencies_response_format", true)]] := by
    decide +kernel
  rw [hresults, List.nil_append, List.map_singleton, List.singleton_inj] at hpassed
  refine ⟨suite, hresults, hpassed, ?_⟩
  obtain ⟨first, second, htests⟩ := List.length_eq_two.mp
    (show suite.tests.length = 2 by simpa using congrArg List.length hpassed)
  rw [htests] at hpassed hchecks
  simp only [List.map_cons, List.map_nil, List.cons.injEq, Prod.mk.injEq, and_true] at hpassed
  obtain ⟨⟨hscan, hfirst⟩, hformat, hsecond⟩ := hpassed
  obtain ⟨x, hx, -⟩ := ((hchecks 0 first rfl).1 hscan).mp hfirst
  obtain ⟨y, hy, -⟩ := ((hchecks 1 second rfl).2 hformat).mp hsecond
  exact ⟨⟨x, hx, (text_of_scans hx).trans (by decide +kernel)⟩,
    y, hy, (text_of_scans hy).trans (by decide +kernel)⟩

end Runner

end Conformance
