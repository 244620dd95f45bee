/-
Conformance — the tests of a suite.

Tests run one after the other, each where the one before it left the client.
What one test does is recorded under its name and stays with it: a test that
passed did by itself what it did under its limit, and a test that would end before
its limit is recorded by its own end (`judged_of_test`).  Only a look at the server
after a test ends a suite early; the list of results says after which test that was
(`Course`).
-/
import Conformance.Proofs.Session.Clock
import Conformance.Proofs.Session.Serial
import Conformance.Run.Runner

namespace Conformance

open Program

variable {σ : Type}

namespace Runner

/-! ## One test -/

/-- A test with all the time it wants. -/
def runAlone (p : RunPlan σ) (t : TestCase) (s : Session σ) :
    Session σ × End (Except Failure Unit) :=
  (t.body p.project).run.run p.transport p.client none s

/-- The instant of the limit of a test that starts now. -/
def limitOf (p : RunPlan σ) (s : Session σ) : Instant := s.now + p.runner.testTimeout

/-- A test under its limit. -/
def runLimited (p : RunPlan σ) (t : TestCase) (s : Session σ) :
    Session σ × End (Except Failure Unit) :=
  (t.body p.project).run.run p.transport p.client (some (limitOf p s)) s

variable {p : RunPlan σ} {t : TestCase} {s s' : Session σ} {e : End (Except Failure Unit)}

theorem runTest_eq (p : RunPlan σ) (t : TestCase) (s : Session σ) :
    runTest p t s = ((runLimited p t s).1,
      resultOf t.name p.runner.testTimeout ((runLimited p t s).1.now - s.now)
        (runLimited p t s).2) := rfl

@[simp]
theorem name_resultOf (name : String) (timeout duration : Duration)
    (e : End (Except Failure Unit)) : (resultOf name timeout duration e).name = name := by
  rcases e with (f | u) | m | _ <;> rfl

@[simp]
theorem duration_resultOf (name : String) (timeout duration : Duration)
    (e : End (Except Failure Unit)) :
    (resultOf name timeout duration e).duration = duration := by
  rcases e with (f | u) | m | _ <;> rfl

/-- Only a body that ended without a failure makes a test pass. -/
theorem passed_resultOf_iff {name : String} {timeout duration : Duration} :
    (resultOf name timeout duration e).passed = true ↔ e = .done (.ok ()) := by
  rcases e with (f | u) | m | _
  · exact ⟨nofun, nofun⟩
  · exact ⟨fun _ => rfl, fun _ => rfl⟩
  · exact ⟨nofun, nofun⟩
  · exact ⟨nofun, nofun⟩

/-- A failure is never without a message. -/
theorem error_fail (name : String) (duration : Duration) (message : String)
    (details : Option Json) :
    ∃ text, (TestResult.fail name duration message details).error = some text ∧ text ≠ "" := by
  rw [TestResult.fail]
  by_cases hempty : message.isEmpty = true
  · exact ⟨TestResult.noMessage, by rw [if_pos hempty], by decide⟩
  · refine ⟨message, by rw [if_neg hempty], ?_⟩
    rintro rfl
    exact hempty rfl

theorem error_of_failed {name : String} {timeout duration : Duration}
    (h : (resultOf name timeout duration e).passed = false) :
    ∃ text, (resultOf name timeout duration e).error = some text ∧ text ≠ "" := by
  rcases e with (f | u) | m | _
  · exact error_fail ..
  · exact nomatch h
  · exact error_fail ..
  · exact error_fail ..

/-- `result` is the result of test `t` that starts in session `s`. -/
structure Judged (p : RunPlan σ) (t : TestCase) (s : Session σ) (result : TestResult) : Prop where
  name : result.name = t.name
  duration : result.duration ≤ p.runner.testTimeout
  /-- It passed if its body returned without a failure under its limit. -/
  passed : result.passed = true ↔ (runLimited p t s).2 = .done (.ok ())
  /-- What passed returned by itself within the limit. -/
  inTime : result.passed = true → ∃ s', runAlone p t s = (s', .done (.ok ())) ∧
    s'.now ≤ limitOf p s
  /-- What ends by itself before the limit is recorded by its own end. -/
  early : ∀ s' e, runAlone p t s = (s', e) → e ≠ .dropped → s'.now < limitOf p s →
    result = resultOf t.name p.runner.testTimeout (s'.now - s.now) e
  /-- What does not end by itself by then has failed. -/
  late : ∀ s' e, runAlone p t s = (s', e) → e = .dropped ∨ limitOf p s < s'.now →
    result.passed = false
  error : result.passed = false → ∃ text, result.error = some text ∧ text ≠ ""

/-- Under its limit a test does what it does by itself, or is dropped there. -/
theorem alone_of_limited (h : runLimited p t s = (s', e)) (he : e ≠ .dropped) :
    runAlone p t s = (s', e) ∧ s'.now ≤ limitOf p s := by
  have hle : s.now ≤ limitOf p s := Nat.le_add_right _ _
  have hclock := clock_of_program (T := p.transport) (o := p.client) (some (limitOf p s))
    (t.body p.project).run s fun d hd => by cases hd; exact hle
  refine ⟨unlimited_of_ended _ hle h he, ?_⟩
  have hnow := hclock.2 _ rfl
  rwa [show ((t.body p.project).run.run p.transport p.client (some (limitOf p s)) s).1 = s'
    from congrArg Prod.fst h] at hnow

theorem judged_of_test (p : RunPlan σ) (t : TestCase) (s : Session σ) :
    Judged p t s (runTest p t s).2 := by
  rw [runTest_eq]
  have hpassed : ∀ {d : Duration}, (resultOf t.name p.runner.testTimeout d
      (runLimited p t s).2).passed = true → ∃ s', runAlone p t s = (s', .done (.ok ())) ∧
        s'.now ≤ limitOf p s := by
    intro d h
    have hend := passed_resultOf_iff.mp h
    exact ⟨_, alone_of_limited (Prod.ext rfl hend) nofun⟩
  refine
    { name := name_resultOf .., duration := ?_, passed := passed_resultOf_iff, inTime := hpassed
      early := ?_, late := ?_, error := error_of_failed }
  · have hclock := clock_of_program (T := p.transport) (o := p.client) (some (limitOf p s))
      (t.body p.project).run s fun d hd => by cases hd; exact Nat.le_add_right _ _
    rw [duration_resultOf]
    exact Nat.sub_le_iff_le_add'.mpr (hclock.2 _ rfl)
  · intro s' e halone he hearly
    have hlimited : runLimited p t s = (s', e) := limited_of_early _ halone he hearly
    rw [hlimited]
  · intro s' e halone hlate
    refine Bool.eq_false_iff.mpr fun h => ?_
    obtain ⟨s'', hreturned, hintime⟩ := hpassed h
    cases halone.symm.trans hreturned
    rcases hlate with hdropped | hlate
    · exact nomatch hdropped
    · exact absurd hintime (Nat.not_le.mpr hlate)

/-! ## A look at the server -/

/-- The server is there: the client has not given it up, and its transport says so. -/
def IsUp (p : RunPlan σ) (s : Session σ) : Prop :=
  s.conn.state ≠ .disconnected ∧ (p.transport.connected s.now s.wire).2 = true

theorem isConnected_eq (p : RunPlan σ) (s : Session σ) :
    isConnected p s = ((Board.look p.transport s .connected).1,
      match (Board.look p.transport s .connected).2 with
      | .connected up => up
      | _ => false) := by
  have hreply : ∃ up, (Board.look p.transport s .connected).2 = .connected up := by
    rw [Board.look]
    split
    · exact ⟨_, rfl⟩
    · exact ⟨_, rfl⟩
  obtain ⟨up, hup⟩ := hreply
  have hrun : (Check.isConnected.run).run p.transport p.client none s
      = ((Board.look p.transport s .connected).1, .done (.ok up)) := by
    have hgather := gather_of_query p.transport p.client .connected s
    rw [hup] at hgather
    show (Program.gather .all [{ work := .use (.ask .connected) }] _).run _ _ none s = _
    rw [Program.run, hgather]
    rfl
  rw [isConnected, hrun, hup]

theorem isConnected_iff : (isConnected p s).2 = true ↔ IsUp p s := by
  rw [isConnected_eq, Board.look, IsUp]
  by_cases hstate : s.conn.state = .disconnected
  · simp [hstate]
  · simp [hstate]

/-! ## One test after the other -/

/-- The session in which the test with number `i` starts, were no look to end the suite. -/
def sessionOf (p : RunPlan σ) : List TestCase → Session σ → Nat → Session σ
  | t :: rest, s, i + 1 => sessionOf p rest (isConnected p (runTest p t s).1).1 i
  | _, s, _ => s

theorem sessionOf_zero (p : RunPlan σ) (tests : List TestCase) (s : Session σ) :
    sessionOf p tests s 0 = s := by
  cases tests <;> rfl

/-- The server is there after the test with number `i`. -/
def UpAfter (p : RunPlan σ) (tests : List TestCase) (s : Session σ) (i : Nat) : Prop :=
  ∀ t, tests[i]? = some t → IsUp p (runTest p t (sessionOf p tests s i)).1

/-- What a run of tests leaves, by the number of tests that were started. -/
structure Course (p : RunPlan σ) (tests : List TestCase) (s : Session σ) (run : TestRun σ) :
    Prop where
  names : run.results.map (·.name) <+: tests.map (·.name)
  session : run.session = sessionOf p tests s run.results.length
  results : ∀ i result, run.results[i]? = some result →
    ∃ t, tests[i]? = some t ∧ result = (runTest p t (sessionOf p tests s i)).2
  all : run.lost = none → run.results.length = tests.length ∧ ∀ i, UpAfter p tests s i
  lost : ∀ name, run.lost = some name → ∃ k t, tests[k]? = some t ∧ name = t.name ∧
    run.results.length = k + 1 ∧ (∀ i < k, UpAfter p tests s i) ∧ ¬ UpAfter p tests s k

/-- The first test runs, and the others where it left the client. -/
theorem course_of_runTests (p : RunPlan σ) (tests : List TestCase) :
    ∀ s, Course p tests s (runTests p tests s) := by
  induction tests with
  | nil =>
      intro s
      exact ⟨List.prefix_refl _, rfl, nofun, fun _ => ⟨rfl, nofun⟩, nofun⟩
  | cons t rest ih =>
      intro s
      have hfirst : UpAfter p (t :: rest) s 0 ↔ IsUp p (runTest p t s).1 :=
        ⟨fun h => h t rfl, fun h t' ht' => by cases ht'; exact h⟩
      have hname : (runTest p t s).2.name = t.name := (judged_of_test p t s).name
      simp only [runTests]
      cases hlook : isConnected p (runTest p t s).1 with
      | mk s' up =>
          have hnext : ∀ i, sessionOf p (t :: rest) s (i + 1) = sessionOf p rest s' i := fun i => by
            rw [sessionOf, hlook]
          have hrest : ∀ i, UpAfter p (t :: rest) s (i + 1) ↔ UpAfter p rest s' i := fun i => by
            simp only [UpAfter, hnext, List.getElem?_cons_succ]
          have hup : UpAfter p (t :: rest) s 0 ↔ up = true := by
            rw [hfirst, ← isConnected_iff, hlook]
          cases up with
          | false =>
              have hdown : ¬ UpAfter p (t :: rest) s 0 := fun h => nomatch hup.mp h
              refine ⟨?_, ((hnext 0).trans (sessionOf_zero p rest s')).symm, ?_, nofun, ?_⟩
              · exact List.cons_prefix_cons.mpr ⟨hname, List.nil_prefix⟩
              · rintro (_ | i) result hresult
                · cases hresult
                  exact ⟨t, rfl, rfl⟩
                · exact nomatch hresult
              · rintro name hlost
                cases hlost
                exact ⟨0, t, rfl, rfl, rfl, nofun, hdown⟩
          | true =>
              have hc := ih s'
              dsimp only
              refine ⟨?_, ?_, ?_, ?_, ?_⟩
              · exact List.cons_prefix_cons.mpr ⟨hname, hc.names⟩
              · exact hc.session.trans (hnext _).symm
              · rintro (_ | i) result hresult
                · cases hresult
                  exact ⟨t, rfl, rfl⟩
                · rw [hnext]
                  exact hc.results i result hresult
              · intro hnone
                obtain ⟨hlength, hups⟩ := hc.all hnone
                refine ⟨congrArg (· + 1) hlength, ?_⟩
                rintro (_ | i)
                · exact hup.mpr rfl
                · exact (hrest i).mpr (hups i)
              · intro name hlost
                obtain ⟨k, t', ht', hname', hlength, hups, hdown⟩ := hc.lost name hlost
                refine ⟨k + 1, t', ht', hname', congrArg (· + 1) hlength, ?_,
                  fun h => hdown ((hrest k).mp h)⟩
                rintro (_ | i) hi
                · exact hup.mpr rfl
                · exact (hrest i).mpr (hups i (Nat.lt_of_succ_lt_succ hi))

/-- A suite is recorded once, with its tests in their order, one result for each that was
started.  A test passes if and only if its body returns without a failure within its limit, and
what fails says why.  While the server is there after every test all of them are started, and the
suite is what is returned; else it ends at the first test after which the server is not there, and
the error names the suite and that test. -/
theorem suite_isolation (p : RunPlan σ) (name : String) (tests : List TestCase) (r : Runner σ) :
    ∃ suite : SuiteResult, suite.name = name ∧
      (runSuite p name tests r).1.results = r.results ++ [suite] ∧
      suite.tests.map (·.name) <+: tests.map (·.name) ∧
      (∀ i result, suite.tests[i]? = some result →
        ∃ t, tests[i]? = some t ∧ Judged p t (sessionOf p tests r.session i) result) ∧
      ((∀ i < tests.length, UpAfter p tests r.session i) →
        suite.tests.length = tests.length ∧ (runSuite p name tests r).2 = .ok suite) ∧
      ∀ k t, tests[k]? = some t → (∀ i < k, UpAfter p tests r.session i) →
        ¬ UpAfter p tests r.session k →
          suite.tests.length = k + 1 ∧
            ∃ tail, (runSuite p name tests r).2 = .error (.connectionLost name t.name tail) := by
  have hc := course_of_runTests p tests r.session
  rw [runSuite]
  generalize runTests p tests r.session = run at hc
  have hresults : ∀ i result, run.results[i]? = some result →
      ∃ t, tests[i]? = some t ∧ Judged p t (sessionOf p tests r.session i) result := by
    intro i result hresult
    obtain ⟨t, ht, rfl⟩ := hc.results i result hresult
    exact ⟨t, ht, judged_of_test p t _⟩
  refine ⟨{ name, tests := run.results, duration := run.session.now - r.session.now }, rfl, ?_,
    hc.names, hresults, ?_, ?_⟩
  · cases run.lost <;> rfl
  · intro hups
    cases hlost : run.lost with
    | none => exact ⟨(hc.all hlost).1, rfl⟩
    | some test =>
        obtain ⟨k, t, ht, _, _, _, hdown⟩ := hc.lost test hlost
        exact absurd (hups k (List.getElem?_eq_some_iff.mp ht).1) hdown
  · intro k t ht hups hdown
    cases hlost : run.lost with
    | none => exact absurd ((hc.all hlost).2 k) hdown
    | some test =>
        obtain ⟨k', t', ht', rfl, hlength, hups', hdown'⟩ := hc.lost test hlost
        have hk : k = k' := by
          rcases Nat.lt_trichotomy k k' with hlt | heq | hgt
          · exact absurd (hups' k hlt) hdown
          · exact heq
          · exact absurd (hups k' hgt) hdown'
        subst hk
        cases ht.symm.trans ht'
        exact ⟨hlength, _, rfl⟩

/-- A server that is there at so many looks. -/
def fading : Transport Nat where
  write now _ w := .at now (w, .ok ())
  arrivals _ _ := []
  take _ _ w := w
  connected _ w := (w - 1, decide (0 < w))
  stop now _ w := { ends := now, after := w, result := .ok (), dropped := w }
  stderr _ _ := []

/-- The server goes during the second of three tests, which fails without a message. -/
theorem suite_isolation_of_lost_server :
    let p : RunPlan Nat := { transport := fading, client := {}, runner := {}, project := "" }
    let tests : List TestCase := [
      { name := "a", body := fun _ => pure () },
      { name := "b", body := fun _ => Check.fail (.ofText "") },
      { name := "c", body := fun _ => pure () }]
    let r : Runner Nat := { session := { wire := 1 } }
    ∃ suite, (runSuite p "s" tests r).1.results = [suite] ∧
      suite.tests.map (fun t => (t.name, t.error))
        = [("a", none), ("b", some TestResult.noMessage)] ∧
      ∃ tail, (runSuite p "s" tests r).2 = .error (.connectionLost "s" "b" tail) := by
  intro p tests r
  obtain ⟨suite, _, hresults, _, hjudged, _, hlost⟩ := suite_isolation p "s" tests r
  have hup : UpAfter p tests r.session 0 := by
    intro t ht
    cases ht
    exact ⟨nofun, rfl⟩
  have hdown : ¬ UpAfter p tests r.session 1 := fun h => nomatch (h _ rfl).2
  obtain ⟨hlength, herror⟩ := hlost 1 _ rfl (fun i hi => Nat.lt_one_iff.mp hi ▸ hup) hdown
  refine ⟨suite, hresults, ?_, herror⟩
  obtain ⟨first, second, htests⟩ := List.length_eq_two.mp hlength
  rw [htests] at hjudged ⊢
  obtain ⟨_, ht, hfirst⟩ := hjudged 0 first rfl
  cases ht
  obtain ⟨_, ht, hsecond⟩ := hjudged 1 second rfl
  cases ht
  rw [hfirst.early _ _ rfl nofun (by decide), hsecond.early _ _ rfl nofun (by decide)]
  rfl

end Runner

end Conformance
