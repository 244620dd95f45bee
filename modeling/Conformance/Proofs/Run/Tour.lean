/-
Conformance — one suite after the other.

A run of suites goes on to the first suite that is cut short, and each of them starts where
the one before it left the runner (`runnerOf`).  `Tour` says what such a run leaves, by the
number of suites that were started: a record of each, in order, and at the end either that the
server was there after every test, or after which test of which suite it was not.

The durations on record add up to what the clock went on (`total_of_runSuites`); a suite
whose tests all pass ends before the end of the clock (`early_of_suite`); and no suite
stops the server (`stops_of_runSuites`).
-/
import Conformance.Proofs.Run.Abort
import Conformance.Proofs.Suite.Operations
import Conformance.Proofs.Suite.Timing
import Conformance.Run.Application

namespace Conformance

open Program Runner

variable {σ : Type} {p : RunPlan σ} {t : TestCase} {tests : List TestCase} {s : Session σ}

/-! ## The tests of one suite -/

namespace Runner

theorem now_of_isConnected (p : RunPlan σ) (s : Session σ) : (isConnected p s).1.now = s.now := by
  rw [isConnected_eq]
  exact now_of_look p.transport s .connected

theorem now_le_runTest (p : RunPlan σ) (t : TestCase) (s : Session σ) :
    s.now ≤ (runTest p t s).1.now := by
  rw [runTest_eq]
  refine (clock_of_program (some (limitOf p s)) (t.body p.project).run s fun d hd => ?_).1
  cases hd
  exact Nat.le_add_right _ _

theorem now_le_runTests (p : RunPlan σ) (tests : List TestCase) :
    ∀ s : Session σ, s.now ≤ (runTests p tests s).session.now := by
  induction tests with
  | nil => exact fun s => Nat.le_refl s.now
  | cons t rest ih =>
      intro s
      have hlook : s.now ≤ (isConnected p (runTest p t s).1).1.now := by
        rw [now_of_isConnected]
        exact now_le_runTest p t s
      simp only [runTests]
      split
      · rename_i s' heq
        rwa [heq] at hlook
      · rename_i s' heq
        rw [heq] at hlook
        exact Nat.le_trans hlook (ih s')

/-- After a test the next one starts where the look at the server left the session. -/
theorem sessionOf_succ : ∀ {tests : List TestCase} {s : Session σ} {i : Nat},
    tests[i]? = some t →
      sessionOf p tests s (i + 1) = (isConnected p (runTest p t (sessionOf p tests s i)).1).1
  | first :: rest, s, 0, ht => by
      cases ht
      rw [sessionOf, sessionOf_zero, sessionOf_zero]
  | first :: rest, s, i + 1, ht => @sessionOf_succ rest _ _ ht

/-- Tests that all pass, the last of them in time, end before the end of the clock. -/
theorem early_of_suite (hlast : tests.getLast? = some t)
    (htime : (t.body p.project).InTime p.transport p.client)
    (hlost : (runTests p tests s).lost = none)
    (hpassed : ∀ result ∈ (runTests p tests s).results, result.passed = true) :
    (runTests p tests s).session.now < clockEnd := by
  have hc := course_of_runTests p tests s
  generalize runTests p tests s = run at hc hlost hpassed
  obtain ⟨hlength, _⟩ := hc.all hlost
  obtain ⟨i, hi⟩ : ∃ i, tests.length = i + 1 := by
    cases tests with
    | nil => exact nomatch hlast
    | cons first rest => exact ⟨rest.length, rfl⟩
  have ht : tests[i]? = some t := by rw [← hlast, List.getLast?_eq_getElem?, hi]; rfl
  have hthere : i < run.results.length := by omega
  obtain ⟨t', ht', hresult⟩ := hc.results i _ (List.getElem?_eq_getElem hthere)
  cases ht.symm.trans ht'
  have hreturned := passed_resultOf_iff.mp (hresult ▸ hpassed _ (List.getElem_mem hthere))
  rw [hc.session, hlength, hi, sessionOf_succ ht, now_of_isConnected]
  exact htime _ _ _ () (Prod.ext rfl hreturned)

variable {stops : σ → Nat}

theorem stops_of_runTest (hT : CountsStops p.transport stops)
    (ht : Check.Only Operation.Spares (t.body p.project)) (s : Session σ) :
    stops (runTest p t s).1.wire = stops s.wire :=
  stops_of_program hT _ s fun grace hmem =>
    calls_of_only (P := Operation.Spares) _ ht hmem grace rfl

theorem stops_of_isConnected (hT : CountsStops p.transport stops) (s : Session σ) :
    stops (isConnected p s).1.wire = stops s.wire := by
  rw [isConnected_eq]
  exact counts_of_look hT s .connected

theorem stops_of_runTests (hT : CountsStops p.transport stops) : ∀ {tests : List TestCase},
    (∀ t ∈ tests, Check.Only Operation.Spares (t.body p.project)) → ∀ s : Session σ,
      stops (runTests p tests s).session.wire = stops s.wire
  | [], _, _ => rfl
  | t :: rest, hall, s => by
      have htest := stops_of_runTest hT (hall t List.mem_cons_self) s
      have hlook := (stops_of_isConnected hT (runTest p t s).1).trans htest
      simp only [runTests]
      split
      · rename_i s' heq
        rwa [heq] at hlook
      · rename_i s' heq
        rw [heq] at hlook
        exact (stops_of_runTests hT (fun t' ht' => hall t' (List.mem_cons_of_mem _ ht')) s').trans
          hlook

/-- The server is stopped once at the end, whatever became of it, and that takes its time. -/
theorem session_of_finish (p : RunPlan σ) (r : Runner σ) :
    let stop := p.transport.stop r.session.now p.runner.grace r.session.wire
    (finish p r).session = { now := max r.session.now stop.ends
                             conn := { r.session.conn with state := .disconnected }
                             wire := stop.after } := by
  intro stop
  have hgather := gather_of_shutdown p.transport p.client p.runner.grace r.session
  show (Program.run p.transport p.client none
    (.gather .all [{ work := .use (.shutdown p.runner.grace) }] _) r.session).1 = _
  rw [Program.run, hgather]
  show (Program.run _ _ _ _ _).1 = _
  cases (p.transport.stop r.session.now p.runner.grace r.session.wire).result <;> rfl

end Runner

/-! ## The suites -/

namespace Application

/-- The runner with which the suite with number `i` starts, were none of them cut short. -/
def runnerOf (p : RunPlan σ) : List Suite → Runner σ → Nat → Runner σ
  | suite :: rest, r, i + 1 => runnerOf p rest (runSuite p suite.title suite.tests r).1 i
  | _, r, _ => r

/-- What is recorded of a suite that starts with this runner. -/
def recordOf (p : RunPlan σ) (suite : Suite) (r : Runner σ) : SuiteResult :=
  { name := suite.title
    tests := (runTests p suite.tests r.session).results
    duration := (runTests p suite.tests r.session).session.now - r.session.now }

/-- The server is there after every test of the suite with number `i`. -/
def StaysUp (p : RunPlan σ) (suites : List Suite) (r : Runner σ) (i : Nat) : Prop :=
  ∀ suite, suites[i]? = some suite → ∀ j, UpAfter p suite.tests (runnerOf p suites r i).session j

/-- The server is not there after test `j` of suite `i`, and was there after every test before. -/
structure LostAt (p : RunPlan σ) (suites : List Suite) (r : Runner σ) (i : Nat) (suite : Suite)
    (j : Nat) (t : TestCase) : Prop where
  started : suites[i]? = some suite
  last : suite.tests[j]? = some t
  before : ∀ i' < i, StaysUp p suites r i'
  within : ∀ j' < j, UpAfter p suite.tests (runnerOf p suites r i).session j'
  down : ¬ UpAfter p suite.tests (runnerOf p suites r i).session j

variable {suites : List Suite} {suite : Suite} {r : Runner σ} {i j : Nat}

theorem runnerOf_zero (p : RunPlan σ) (suites : List Suite) (r : Runner σ) :
    runnerOf p suites r 0 = r := by
  cases suites <;> rfl

theorem runnerOf_succ : ∀ {suites : List Suite} {r : Runner σ} {i : Nat},
    suites[i]? = some suite → runnerOf p suites r (i + 1)
      = (runSuite p suite.title suite.tests (runnerOf p suites r i)).1
  | first :: rest, r, 0, h => by
      cases h
      rw [runnerOf, runnerOf_zero, runnerOf_zero]
  | first :: rest, r, i + 1, h => @runnerOf_succ rest _ _ h

/-- There is one test at most at which the server can be lost. -/
theorem lostAt_unique {suite' : Suite} {i' j' : Nat} {t' : TestCase}
    (h : LostAt p suites r i suite j t) (h' : LostAt p suites r i' suite' j' t') :
    i = i' ∧ suite = suite' ∧ j = j' ∧ t = t' := by
  have hi : i = i' := by
    rcases Nat.lt_trichotomy i i' with hlt | heq | hgt
    · exact absurd (h'.before i hlt suite h.started j) h.down
    · exact heq
    · exact absurd (h.before i' hgt suite' h'.started j') h'.down
  subst hi
  cases h.started.symm.trans h'.started
  have hj : j = j' := by
    rcases Nat.lt_trichotomy j j' with hlt | heq | hgt
    · exact absurd (h'.within j hlt) h.down
    · exact heq
    · exact absurd (h.within j' hgt) h'.down
  subst hj
  exact ⟨rfl, rfl, rfl, Option.some.inj (h.last.symm.trans h'.last)⟩

/-- What a run of suites leaves: `records` are those of the suites that were started. -/
structure Tour (p : RunPlan σ) (suites : List Suite) (r : Runner σ) (records : List SuiteResult)
    (out : Runner σ × Option RunError) : Prop where
  results : out.1.results = r.results ++ records
  runner : out.1 = runnerOf p suites r records.length
  record : ∀ i record, records[i]? = some record →
    ∃ suite, suites[i]? = some suite ∧ record = recordOf p suite (runnerOf p suites r i)
  all : out.2 = none → records.length = suites.length ∧ ∀ i, StaysUp p suites r i
  lost : ∀ e, out.2 = some e → ∃ i suite j t tail, LostAt p suites r i suite j t ∧
    records.length = i + 1 ∧ e = .connectionLost suite.title t.name tail

/-- A suite is over when the server was there after all of its tests. -/
theorem runSuite_cases (p : RunPlan σ) (suite : Suite) (r : Runner σ) :
    (∃ result, (runSuite p suite.title suite.tests r).2 = .ok result ∧
        ∀ j, UpAfter p suite.tests r.session j) ∨
      ∃ j t tail, (runSuite p suite.title suite.tests r).2
          = .error (.connectionLost suite.title t.name tail) ∧
        suite.tests[j]? = some t ∧ (∀ j' < j, UpAfter p suite.tests r.session j') ∧
        ¬ UpAfter p suite.tests r.session j := by
  have hc := course_of_runTests p suite.tests r.session
  rw [runSuite]
  cases hlost : (runTests p suite.tests r.session).lost with
  | none => exact .inl ⟨_, rfl, (hc.all hlost).2⟩
  | some name =>
      obtain ⟨j, t, ht, rfl, _, hups, hdown⟩ := hc.lost name hlost
      exact .inr ⟨j, t, _, rfl, ht, hups, hdown⟩

/-- Suites run one after the other, up to one that is cut short. -/
theorem tour_of_runSuites (p : RunPlan σ) (suites : List Suite) :
    ∀ r, ∃ records, Tour p suites r records (runSuites p suites r) := by
  induction suites with
  | nil =>
      intro r
      exact ⟨[], (List.append_nil _).symm, rfl, nofun, fun _ => ⟨rfl, nofun⟩, nofun⟩
  | cons first rest ih =>
      intro r
      have hfirst : ∀ j, UpAfter p first.tests (runnerOf p (first :: rest) r 0).session j ↔
          UpAfter p first.tests r.session j := fun j => by rw [runnerOf_zero]
      have hrecord : recordOf p first r
          = recordOf p first (runnerOf p (first :: rest) r 0) := by rw [runnerOf_zero]
      have hresults := results_of_runSuite p first.title first.tests r
      have hcases := runSuite_cases p first r
      simp only [runSuites]
      cases hdone : runSuite p first.title first.tests r with
      | mk r' result =>
          rw [hdone] at hresults hcases
          have hnext : ∀ i, runnerOf p (first :: rest) r (i + 1) = runnerOf p rest r' i :=
            fun i => by rw [runnerOf, hdone]
          have hrest : ∀ i, StaysUp p (first :: rest) r (i + 1) ↔ StaysUp p rest r' i := fun i => by
            simp only [StaysUp, hnext, List.getElem?_cons_succ]
          rcases hcases with ⟨result', rfl, hups⟩ | ⟨j, t, tail, rfl, ht, hups, hdown⟩
          · have hzero : StaysUp p (first :: rest) r 0 := fun suite hsuite j => by
              cases hsuite
              exact (hfirst j).mpr (hups j)
            obtain ⟨records, htour⟩ := ih r'
            refine ⟨recordOf p first r :: records, ?_, htour.runner.trans (hnext _).symm,
              ?_, ?_, ?_⟩
            · rw [htour.results, hresults, List.append_assoc]
              rfl
            · rintro (_ | i) record hmem
              · cases hmem
                exact ⟨first, rfl, hrecord⟩
              · rw [hnext]
                exact htour.record i record hmem
            · intro hnone
              obtain ⟨hlength, hall⟩ := htour.all hnone
              refine ⟨congrArg (· + 1) hlength, ?_⟩
              rintro (_ | i)
              · exact hzero
              · exact (hrest i).mpr (hall i)
            · intro e he
              obtain ⟨i, suite, j, t, tail, hlost, hlength, rfl⟩ := htour.lost e he
              refine ⟨i + 1, suite, j, t, tail,
                ⟨hlost.started, hlost.last, ?_, by rw [hnext]; exact hlost.within,
                  by rw [hnext]; exact hlost.down⟩,
                congrArg (· + 1) hlength, rfl⟩
              rintro (_ | i') hi'
              · exact hzero
              · exact (hrest i').mpr (hlost.before i' (Nat.lt_of_succ_lt_succ hi'))
          · refine ⟨[recordOf p first r], hresults,
              ((hnext 0).trans (runnerOf_zero p rest r')).symm, ?_, nofun, ?_⟩
            · rintro (_ | i) record hmem
              · cases hmem
                exact ⟨first, rfl, hrecord⟩
              · exact nomatch hmem
            · rintro e ⟨rfl⟩
              exact ⟨0, first, j, t, tail,
                ⟨rfl, ht, nofun, fun j' hj' => (hfirst j').mpr (hups j' hj'),
                  fun h => hdown ((hfirst j).mp h)⟩, rfl, rfl⟩

/-- The durations on record add up to the time that has passed. -/
theorem total_of_runSuites (p : RunPlan σ) (suites : List Suite) : ∀ {r : Runner σ} {records},
    (runSuites p suites r).1.results = r.results ++ records →
      r.session.now + Duration.total (records.map (·.duration))
        = (runSuites p suites r).1.session.now := by
  induction suites with
  | nil =>
      intro r records h
      rw [List.self_eq_append_right.mp h]
      rfl
  | cons first rest ih =>
      intro r records h
      have hresults := results_of_runSuite p first.title first.tests r
      have hsession := session_of_runSuite p first.title first.tests r
      have hle := now_le_runTests p first.tests r.session
      simp only [runSuites] at h ⊢
      generalize runSuite p first.title first.tests r = done at hresults hsession h
      obtain ⟨r', result⟩ := done
      dsimp only at hresults hsession
      cases result with
      | ok result =>
          obtain ⟨later, hlater⟩ : ∃ later, (runSuites p rest r').1.results = r'.results ++ later :=
            (tour_of_runSuites p rest r').imp fun _ htour => htour.results
          have hlaterTotal := ih hlater
          dsimp only at h ⊢
          rw [hlater, hresults, List.append_assoc] at h
          rw [← List.append_cancel_left h, ← hlaterTotal, hsession]
          exact (Nat.add_assoc _ _ _).symm.trans
            (congrArg (· + Duration.total (later.map (·.duration))) (Nat.add_sub_cancel' hle))
      | error e =>
          dsimp only at h ⊢
          rw [hresults] at h
          rw [← List.append_cancel_left h, hsession]
          exact Nat.add_sub_cancel' hle

/-- The suites of the catalog do not stop the server. -/
theorem stops_of_runSuites {stops : σ → Nat} (hT : CountsStops p.transport stops) :
    ∀ {suites : List Suite}, (∀ suite ∈ suites, suite.Spares) → ∀ r : Runner σ,
      stops (runSuites p suites r).1.session.wire = stops r.session.wire
  | [], _, _ => rfl
  | first :: rest, hall, r => by
      have hsession := session_of_runSuite p first.title first.tests r
      have hfirst := stops_of_runTests hT
        (fun t ht => hall first List.mem_cons_self t ht p.project) r.session
      rw [← hsession] at hfirst
      simp only [runSuites]
      split
      · rename_i r' result heq
        rw [heq] at hfirst
        exact (stops_of_runSuites hT (fun suite hsuite =>
          hall suite (List.mem_cons_of_mem _ hsuite)) r').trans hfirst
      · rename_i r' e heq
        rwa [heq] at hfirst

end Application

end Conformance
