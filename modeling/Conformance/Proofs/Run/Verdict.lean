/-
Conformance — the verdict of a run.

A run succeeds if and only if its settings are valid, a session was opened, and its suites are
`Flawless`: each key names one, each is on record with all of its tests, the server was there
after every test, and every test passed (`run_verdict`).  Nothing that goes wrong on the
way gets lost: what is not run cannot hide behind what passed, and the sum of the durations,
which a summary may have no room for, stays within bounds when all tests pass.

Whatever became of the suites, the server is stopped once, behind the last of them and before
the verdict.
-/
import Conformance.Proofs.Report.Projection
import Conformance.Proofs.Run.Tour
import Conformance.Settings.Basic

namespace Conformance

open Runner

variable {σ : Type}

namespace Application

/-! ## The parts of a run -/

/-- The plan that settings make. -/
def planOf (T : Transport σ) (settings : Settings) : RunPlan σ :=
  { transport := T
    client := settings.clientOptions
    runner := settings.runnerOptions
    project := settings.projectPath }

/-- The suites that keys name. -/
def suitesOf (keys : List String) : List Suite := keys.filterMap Suite.find?

/-- The runner with which the first suite starts, once the server has settled. -/
def settled (p : RunPlan σ) (s : Session σ) : Runner σ :=
  { session := { s with now := s.now + p.runner.settle } }

/-- What the suites leave, and why they ended early, if they did. -/
def tourOf (p : RunPlan σ) (keys : List String) (s : Session σ) : Runner σ × Option RunError :=
  runSuites p (suitesOf keys) (settled p s)

/-- Nothing is missing, and nothing failed. -/
structure Flawless (p : RunPlan σ) (keys : List String) (s : Session σ) : Prop where
  /-- Every key names a suite. -/
  known : keys.map Suite.find? = (suitesOf keys).map some
  /-- Every suite is on record with all of its tests, in the order of the keys. -/
  whole : (tourOf p keys s).1.results.map (fun result => (result.name, result.tests.map (·.name)))
    = (suitesOf keys).map fun suite => (suite.title, suite.testNames)
  /-- The server was there after every test. -/
  up : ∀ i, StaysUp p (suitesOf keys) (settled p s) i
  passed : ∀ result ∈ (tourOf p keys s).1.results, ∀ t ∈ result.tests, t.passed = true

/-- The run ended with test `j` of suite `i`: what was started is on record, and nothing was started
after that. -/
structure CutShort (p : RunPlan σ) (keys : List String) (s : Session σ) (i : Nat) (suite : Suite)
    (j : Nat) (t : TestCase) : Prop where
  reported : ∃ tail, (tourOf p keys s).2 = some (.connectionLost suite.title t.name tail)
  /-- The session is as the look after that test left it. -/
  session : (tourOf p keys s).1.session
    = sessionOf p suite.tests (runnerOf p (suitesOf keys) (settled p s) i).session (j + 1)
  started : (tourOf p keys s).1.results.length = i + 1
  record : ∃ record, (tourOf p keys s).1.results[i]? = some record ∧ record.name = suite.title ∧
    record.tests.map (·.name) = suite.testNames.take (j + 1) ∧
    -- the partial suite has its line, and all that was started is in the totals
    ∀ summary, Summary.of? (tourOf p keys s).1.results = some summary →
      summary.suites[i]? = some (Summary.line record) ∧
        summary.totalPassed + summary.totalFailed
          = ((tourOf p keys s).1.results.map (·.tests.length)).sum

section Parts

variable {T : Transport σ} {start : ClientOptions → ServerCommand → Opened σ}
variable {settings : Settings} {p : RunPlan σ} {keys : List String} {s : Session σ}

theorem run_of_session (hvalid : settings.fault = none)
    (hstart : start settings.clientOptions settings.serverCommand = .done (.ok s)) :
    run T start settings =
      let out := tourOf (planOf T settings) settings.suites s
      conclude out.1.printed (finish (planOf T settings) out.1).results out.2 := by
  rw [run, hvalid]
  dsimp only
  rw [hstart]
  rfl

theorem exit_conclude_iff {printed : String} {results : List SuiteResult}
    {aborted : Option RunError} : (conclude printed results aborted).exit = 0 ↔
      aborted = none ∧ ∃ summary, Summary.of? results = some summary ∧
        ∀ s ∈ results, ∀ t ∈ s.tests, t.passed = true := by
  rw [conclude]
  cases hsummary : Summary.of? results with
  | none => exact ⟨nofun, nofun⟩
  | some summary =>
      cases aborted with
      | some e => exact ⟨nofun, nofun⟩
      | none =>
          rw [← Summary.passed_iff hsummary]
          show summary.exitCode = 0 ↔ _
          rw [Summary.exitCode]
          cases summary.passed <;> simp

/-- Valid settings name suites only. -/
theorem known_of_valid (hvalid : settings.fault = none) :
    settings.suites.map Suite.find? = (suitesOf settings.suites).map some := by
  have hunknown : settings.unknownSuite? = none := by
    simp only [Settings.fault] at hvalid
    split_ifs at hvalid
    exact Option.map_eq_none_iff.mp hvalid
  have hkey : ∀ key ∈ settings.suites, ∃ suite, Suite.find? key = some suite := by
    intro key hmem
    have hlisted : key ∈ Suite.keys := by
      have hnot := List.find?_eq_none.mp hunknown key hmem
      simpa using hnot
    obtain ⟨suite, hsuite, hname⟩ := List.mem_map.mp hlisted
    refine Option.isSome_iff_exists.mp (List.find?_isSome.mpr ⟨suite, hsuite, ?_⟩)
    exact beq_iff_eq.mpr hname
  generalize settings.suites = keys at hkey
  induction keys with
  | nil => rfl
  | cons key rest ih =>
      obtain ⟨suite, hsuite⟩ := hkey key List.mem_cons_self
      rw [suitesOf, List.filterMap_cons, hsuite, List.map_cons, List.map_cons, hsuite]
      exact congrArg (some suite :: ·) (ih fun key hmem => hkey key (List.mem_cons_of_mem _ hmem))

theorem find_of_suitesOf {suite : Suite} (h : suite ∈ suitesOf keys) :
    ∃ key, Suite.find? key = some suite :=
  (List.mem_filterMap.mp h).imp fun _ => And.right

/-- What is on record of a run of suites. -/
theorem tour_of_tourOf (p : RunPlan σ) (keys : List String) (s : Session σ) :
    Tour p (suitesOf keys) (settled p s) (tourOf p keys s).1.results (tourOf p keys s) := by
  obtain ⟨records, htour⟩ := tour_of_runSuites p (suitesOf keys) (settled p s)
  have hrecords : (tourOf p keys s).1.results = records := htour.results
  rw [hrecords]
  exact htour

/-- Nothing is missing from a suite that was not cut short. -/
theorem names_of_up {suite : Suite} {r : Runner σ} (h : ∀ j, UpAfter p suite.tests r.session j) :
    (runTests p suite.tests r.session).lost = none ∧
      (recordOf p suite r).tests.map (·.name) = suite.testNames := by
  have hc := course_of_runTests p suite.tests r.session
  have hlost : (runTests p suite.tests r.session).lost = none := by
    cases hlost : (runTests p suite.tests r.session).lost with
    | none => rfl
    | some name =>
        obtain ⟨j, _, _, _, _, _, hdown⟩ := hc.lost name hlost
        exact absurd (h j) hdown
  refine ⟨hlost, hc.names.eq_of_length ?_⟩
  rw [List.length_map, List.length_map, (hc.all hlost).1]

/-- When every test passed the durations do not add up to too much. -/
theorem summary_of_passed (hnone : (tourOf p keys s).2 = none)
    (hpassed : ∀ result ∈ (tourOf p keys s).1.results, ∀ t ∈ result.tests, t.passed = true) :
    ∃ summary, Summary.of? (tourOf p keys s).1.results = some summary := by
  have htour := tour_of_tourOf p keys s
  have htotal : (settled p s).session.now
      + Duration.total ((tourOf p keys s).1.results.map (·.duration))
        = (tourOf p keys s).1.session.now := total_of_runSuites p (suitesOf keys) htour.results
  generalize tourOf p keys s = out at htour hnone hpassed htotal
  obtain ⟨hlength, hups⟩ := htour.all hnone
  have hlimit : Duration.total (out.1.results.map (·.duration)) < Summary.durationLimit := by
    cases hn : out.1.results.length with
    | zero =>
        rw [List.length_eq_zero_iff.mp hn]
        exact Nat.zero_lt_succ _
    | succ n =>
        obtain ⟨suite, hsuite, hrecord⟩ :=
          htour.record n _ (List.getElem?_eq_getElem (by omega : n < out.1.results.length))
        obtain ⟨key, hkey⟩ := find_of_suitesOf (List.mem_of_getElem? hsuite)
        obtain ⟨t, hlast, htime⟩ :=
          Suite.ends_inTime (T := p.transport) (o := p.client) hkey
        have hearly := early_of_suite hlast (htime p.project) (names_of_up (hups n suite hsuite)).1
          fun result hmem => hpassed _ (List.getElem_mem _) result (by rw [hrecord]; exact hmem)
        have hnow : out.1.session.now < clockEnd := by
          rw [htour.runner, hn, runnerOf_succ hsuite, session_of_runSuite]
          exact hearly
        have hle : Duration.total (out.1.results.map (·.duration)) ≤ out.1.session.now :=
          htotal ▸ Nat.le_add_left _ _
        have hbound : clockEnd ≤ Summary.durationLimit := by decide
        exact Nat.lt_of_lt_of_le (Nat.lt_of_le_of_lt hle hnow) hbound
  rw [Summary.of_eq_ite, if_pos hlimit]
  exact ⟨_, rfl⟩

theorem flawless_iff (hvalid : settings.fault = none) :
    Flawless p settings.suites s ↔ (tourOf p settings.suites s).2 = none ∧
      ∀ result ∈ (tourOf p settings.suites s).1.results, ∀ t ∈ result.tests, t.passed = true := by
  have htour := tour_of_tourOf p settings.suites s
  constructor
  · intro h
    refine ⟨?_, h.passed⟩
    cases hlost : (tourOf p settings.suites s).2 with
    | none => rfl
    | some e =>
        obtain ⟨i, suite, j, t, _, hat, _⟩ := htour.lost e hlost
        exact absurd (h.up i suite hat.started j) hat.down
  · rintro ⟨hnone, hpassed⟩
    obtain ⟨hlength, hups⟩ := htour.all hnone
    refine ⟨known_of_valid hvalid, List.ext_getElem? fun i => ?_, hups, hpassed⟩
    rw [List.getElem?_map, List.getElem?_map]
    cases hrecord : (tourOf p settings.suites s).1.results[i]? with
    | none =>
        rw [List.getElem?_eq_none (hlength ▸ List.getElem?_eq_none_iff.mp hrecord)]
        rfl
    | some record =>
        obtain ⟨suite, hsuite, rfl⟩ := htour.record i record hrecord
        rw [hsuite, Option.map_some, Option.map_some, (names_of_up (hups i suite hsuite)).2]
        rfl

/-- Where the server is lost the run ends. -/
theorem cutShort_of_lostAt {i j : Nat} {suite : Suite} {t : TestCase}
    (h : LostAt p (suitesOf keys) (settled p s) i suite j t) : CutShort p keys s i suite j t := by
  have htour := tour_of_tourOf p keys s
  have hc := course_of_runTests p suite.tests
    (runnerOf p (suitesOf keys) (settled p s) i).session
  obtain ⟨e, he⟩ : ∃ e, (tourOf p keys s).2 = some e := by
    cases hend : (tourOf p keys s).2 with
    | some e => exact ⟨e, rfl⟩
    | none => exact absurd ((htour.all hend).2 i suite h.started j) h.down
  obtain ⟨i', suite', j', t', tail, hat, hlength, rfl⟩ := htour.lost e he
  obtain ⟨rfl, rfl, rfl, rfl⟩ := lostAt_unique h hat
  have htests : (recordOf p suite (runnerOf p (suitesOf keys) (settled p s) i)).tests.length
      = j + 1 := by
    cases hlost : (runTests p suite.tests
        (runnerOf p (suitesOf keys) (settled p s) i).session).lost with
    | none => exact absurd ((hc.all hlost).2 j) h.down
    | some name =>
        obtain ⟨k, t', ht', _, hlength', hups, hdown⟩ := hc.lost name hlost
        obtain ⟨_, _, rfl, _⟩ := lostAt_unique h ⟨h.started, ht', h.before, hups, hdown⟩
        exact hlength'
  refine ⟨⟨tail, he⟩, ?_, hlength, ?_⟩
  · rw [htour.runner, hlength, runnerOf_succ h.started, session_of_runSuite, hc.session]
    exact congrArg _ htests
  · have hthere : i < (tourOf p keys s).1.results.length := by omega
    have hget := List.getElem?_eq_getElem hthere
    obtain ⟨suite', hsuite, hrecord⟩ := htour.record i _ hget
    cases h.started.symm.trans hsuite
    rw [hrecord] at hget
    refine ⟨_, hget, rfl, ?_, fun summary hsummary => ⟨?_, Summary.total_tests hsummary⟩⟩
    · have hprefix := List.prefix_iff_eq_take.mp hc.names
      rwa [List.length_map, show (runTests p suite.tests
        (runnerOf p (suitesOf keys) (settled p s) i).session).results.length = j + 1
        from htests] at hprefix
    · rw [(Summary.of_eq_some hsummary).1, List.getElem?_map, hget]
      rfl

theorem stops_of_tourOf {stops : σ → Nat} (hT : CountsStops p.transport stops) (keys : List String)
    (s : Session σ) : stops (tourOf p keys s).1.session.wire = stops s.wire := by
  rw [tourOf]
  exact stops_of_runSuites hT
    (fun suite hmem => by
      obtain ⟨key, hkey⟩ := find_of_suitesOf hmem
      exact Suite.spares_of_find hkey)
    (settled p s)

theorem stops_of_finish {stops : σ → Nat} (hT : CountsStops p.transport stops) (r : Runner σ) :
    stops (finish p r).session.wire = stops r.session.wire + 1 := by
  rw [session_of_finish]
  exact hT.stopped _ _ _

end Parts

/-- A run succeeds if and only if its settings are valid, a session was opened, every key names a
suite that was run whole and in its turn, the server was there after every test, and every test
passed.  With settings that are not valid no server is started, and without a session no test
runs; both fail.  A run that loses the server ends with the test after which that shows, its
partial suite is in the summary, and it fails, whatever the tests were worth.  Once a session was
opened the server is stopped exactly once, after the suites and before the verdict. -/
theorem run_verdict (T : Transport σ) (start : ClientOptions → ServerCommand → Opened σ)
    (settings : Settings) :
    ((run T start settings).exit = 0 ↔ settings.fault = none ∧
      ∃ s, start settings.clientOptions settings.serverCommand = .done (.ok s) ∧
        Flawless (planOf T settings) settings.suites s) ∧
    (settings.fault ≠ none → (run T start settings).exit ≠ 0 ∧
      ∀ {σ' : Type} (T' : Transport σ') start', run T' start' settings = run T start settings) ∧
    ((∀ s, start settings.clientOptions settings.serverCommand ≠ .done (.ok s)) →
      (run T start settings).exit ≠ 0 ∧ ∀ T', run T' start settings = run T start settings) ∧
    ∀ s, settings.fault = none →
      start settings.clientOptions settings.serverCommand = .done (.ok s) →
        (∀ i suite j t, LostAt (planOf T settings) (suitesOf settings.suites)
            (settled (planOf T settings) s) i suite j t →
          (run T start settings).exit ≠ 0 ∧
            CutShort (planOf T settings) settings.suites s i suite j t) ∧
        ∀ stops, CountsStops T stops →
          stops (tourOf (planOf T settings) settings.suites s).1.session.wire = stops s.wire ∧
          ∃ stopped, stopped = finish (planOf T settings)
              (tourOf (planOf T settings) settings.suites s).1 ∧
            stops stopped.session.wire = stops s.wire + 1 ∧
            run T start settings = conclude stopped.printed stopped.results
              (tourOf (planOf T settings) settings.suites s).2 := by
  refine ⟨?_, ?_, ?_, ?_⟩
  · constructor
    · intro hexit
      cases hvalid : settings.fault with
      | some fault =>
          rw [run, hvalid] at hexit
          exact nomatch hexit
      | none =>
          refine ⟨rfl, ?_⟩
          cases hstart : start settings.clientOptions settings.serverCommand with
          | done opened =>
              cases opened with
              | ok s =>
                  rw [run_of_session hvalid hstart] at hexit
                  obtain ⟨hnone, _, _, hpassed⟩ := exit_conclude_iff.mp hexit
                  exact ⟨s, rfl, (flawless_iff hvalid).mpr ⟨hnone, hpassed⟩⟩
              | error e =>
                  simp only [run, hvalid, hstart] at hexit
                  exact nomatch hexit
          | crashed m | dropped =>
              simp only [run, hvalid, hstart] at hexit
              exact nomatch hexit
    · rintro ⟨hvalid, s, hstart, hflawless⟩
      obtain ⟨hnone, hpassed⟩ := (flawless_iff hvalid).mp hflawless
      obtain ⟨summary, hsummary⟩ := summary_of_passed hnone hpassed
      rw [run_of_session hvalid hstart]
      exact exit_conclude_iff.mpr ⟨hnone, summary, hsummary, hpassed⟩
  · intro hfault
    obtain ⟨fault, hsome⟩ := Option.ne_none_iff_exists'.mp hfault
    simp only [run, hsome]
    exact ⟨nofun, fun _ _ => trivial⟩
  · intro hnever
    cases hvalid : settings.fault with
    | some fault =>
        simp only [run, hvalid]
        exact ⟨nofun, fun _ => trivial⟩
    | none =>
        cases hstart : start settings.clientOptions settings.serverCommand with
        | done opened =>
            cases opened with
            | ok s => exact absurd hstart (hnever s)
            | error e =>
                simp only [run, hvalid, hstart]
                exact ⟨nofun, fun _ => trivial⟩
        | crashed m | dropped =>
            simp only [run, hvalid, hstart]
            exact ⟨nofun, fun _ => trivial⟩
  · intro s hvalid hstart
    have hrun := run_of_session (T := T) hvalid hstart
    refine ⟨fun i suite j t hlost => ⟨fun hexit => ?_, cutShort_of_lostAt hlost⟩,
      fun stops hT => ?_⟩
    · rw [hrun] at hexit
      obtain ⟨tail, hreported⟩ := (cutShort_of_lostAt hlost).reported
      exact nomatch hreported.symm.trans (exit_conclude_iff.mp hexit).1
    · have hsuites := stops_of_tourOf (p := planOf T settings) hT settings.suites s
      refine ⟨hsuites, _, rfl, ?_, hrun⟩
      rw [stops_of_finish (p := planOf T settings) hT, hsuites]

/-- A server that takes every line, and is gone at every look. -/
def vanished : Transport Nat := { fading with connected := fun _ w => (w, false) }

/-- Two suites for a server. -/
def twoSuites : Settings :=
  { server := { command := "server" }, suites := ["smoke", "stress"] }

/-- Without a command no server is started, and one that cannot be started is not tested.  One that
is gone after the first test of two suites leaves one test on record, and is stopped once. -/
theorem run_verdict_of_vanished_server :
    let opened : Session (Nat × Nat) := { wire := (0, 0) }
    let plan := planOf vanished.counting twoSuites
    (run vanished (fun _ _ => .dropped) {}).exit ≠ 0 ∧
    (run vanished (fun _ _ => .dropped) twoSuites).exit ≠ 0 ∧
    (run vanished.counting (fun _ _ => .done (.ok opened)) twoSuites).exit ≠ 0 ∧
    (tourOf plan twoSuites.suites opened).1.results.map (·.tests.map (·.name))
      = [["server_connects"]] ∧
    (finish plan (tourOf plan twoSuites.suites opened).1).session.wire.2 = 1 := by
  dsimp only
  have hvalid : twoSuites.fault = none := by decide +kernel
  have hnone : ({} : Settings).fault ≠ none := by decide +kernel
  obtain ⟨_, hfault, _⟩ := run_verdict vanished (fun _ _ => .dropped) {}
  obtain ⟨_, _, hsetup, _⟩ := run_verdict vanished (fun _ _ => .dropped) twoSuites
  obtain ⟨_, _, _, hrun⟩ :=
    run_verdict vanished.counting (fun _ _ => .done (.ok { wire := (0, 0) })) twoSuites
  obtain ⟨hlosses, hstops⟩ := hrun { wire := (0, 0) } hvalid rfl
  have hsmoke : Suite.find? "smoke" = some Suite.Smoke.suite := List.find?_cons_of_pos rfl
  have hlost : LostAt (planOf vanished.counting twoSuites) (suitesOf twoSuites.suites)
      (settled (planOf vanished.counting twoSuites) { wire := (0, 0) }) 0 Suite.Smoke.suite 0
      { name := "server_connects", body := Suite.Smoke.serverConnects } :=
    { started := by
        rw [twoSuites, suitesOf, List.filterMap_cons, hsmoke]
        rfl
      last := rfl
      before := nofun
      within := nofun
      down := fun hup => nomatch (hup _ rfl).2 }
  obtain ⟨hfails, hcut⟩ := hlosses 0 _ 0 _ hlost
  obtain ⟨record, hrecord, _, hnames, _⟩ := hcut.record
  obtain ⟨_, stopped, hstopped, honce, _⟩ := hstops (·.2) (countsStops_counting vanished)
  rw [hstopped] at honce
  refine ⟨(hfault hnone).1, (hsetup fun _ => nofun).1, hfails, ?_, honce⟩
  obtain ⟨first, hresults⟩ := List.length_eq_one_iff.mp hcut.started
  rw [hresults] at hrecord ⊢
  cases hrecord
  exact congrArg (fun names => [names]) hnames

end Application

end Conformance
