/-
Conformance — how a run breaks down.

Of the lengths of time in settings only the request timeout is added to an instant of the clock,
and only where a response comes to be awaited.  A test in which the deadline lies beyond the clock
is recorded as broken down (`brokeDown_iff`), and the run goes on; in the opening nobody
catches it, and the run breaks down (`opening_breaks_iff`).  With a request timeout that no
clock can tell every deadline is beyond it: no session is ever opened.  A run that is over so
early that the request timeout still fits the clock broke down nowhere, however long tests, pauses
and stops may take (`run_breaks_down`).
-/
import Conformance.Proofs.Run.Verdict
import Conformance.Proofs.Session.Departure

namespace Conformance

open Program Runner

variable {σ : Type}

/-- The result says that the test broke down. -/
def TestResult.BrokeDown (r : TestResult) : Prop :=
  r.details = some (.obj [("kind", .str "panic")])

/-- A deadline that is counted from a later instant lies beyond the clock all the more. -/
theorem ClientOptions.Overruns.mono {o : ClientOptions} {t t' : Instant} (h : o.Overruns t)
    (hle : t ≤ t') : o.Overruns t' :=
  Nat.le_trans h (Nat.add_le_add_right hle _)

namespace Runner

variable {p : RunPlan σ} {t : TestCase} {s : Session σ}

/-! ## Tests -/

/-- The instants at which responses come to be awaited in a test that starts in this session. -/
def awaitsOf (p : RunPlan σ) (t : TestCase) (s : Session σ) : List Instant :=
  (t.body p.project).run.awaits p.transport p.client (some (limitOf p s)) s

theorem brokeDown_resultOf_iff {name : String} {timeout duration : Duration}
    {e : End (Except Failure Unit)} :
    (resultOf name timeout duration e).BrokeDown ↔ ∃ m, e = .crashed m := by
  rcases e with (f | u) | m | _
  · refine iff_of_false (fun h => ?_) (by simp)
    have hdetails : details f = .obj [("kind", .str "panic")] := Option.some.inj h
    rw [details] at hdetails
    split at hdetails <;> simp at hdetails
  · refine iff_of_false (fun h => ?_) (by simp)
    cases h
  · exact iff_of_true rfl ⟨m, rfl⟩
  · refine iff_of_false (fun h => ?_) (by simp)
    have hdetails := Option.some.inj h
    simp at hdetails

/-- A test that does not do so of its own accord breaks down if and only if a response comes to be
awaited in it until after the end of the clock. -/
theorem brokeDown_iff (ht : Check.Only Operation.Spares (t.body p.project)) (s : Session σ) :
    (runTest p t s).2.BrokeDown ↔ ∃ u ∈ awaitsOf p t s, p.client.Overruns u := by
  rw [runTest_eq, brokeDown_resultOf_iff]
  constructor
  · rintro ⟨m, hcrashed⟩
    exact ((crashed_iff _ ht).mp hcrashed).2
  · exact fun hover => ⟨clockOverflow, (crashed_iff _ ht).mpr ⟨rfl, hover⟩⟩

/-- What is reported of a test that broke down. -/
theorem error_of_brokeDown (ht : Check.Only Operation.Spares (t.body p.project))
    (h : (runTest p t s).2.BrokeDown) :
    (runTest p t s).2.error = some ("test panicked: " ++ clockOverflow) := by
  rw [runTest_eq] at h ⊢
  obtain ⟨m, hcrashed⟩ := brokeDown_resultOf_iff.mp h
  rw [hcrashed, ((crashed_iff _ ht).mp hcrashed).1]
  rfl

theorem overruns_of_brokeDown (ht : Check.Only Operation.Spares (t.body p.project))
    (h : (runTest p t s).2.BrokeDown) : p.client.Overruns (runTest p t s).1.now := by
  obtain ⟨u, hu, hover⟩ := (brokeDown_iff ht s).mp h
  refine hover.mono (now_of_awaits _ (fun d hd => ?_) hu)
  cases hd
  exact Nat.le_add_right _ _

/-- When a test of a suite broke down the clock is too close to its end for another response. -/
theorem overruns_of_runTests {tests : List TestCase} :
    (∀ t ∈ tests, Check.Only Operation.Spares (t.body p.project)) → ∀ {s : Session σ},
      ∀ r ∈ (runTests p tests s).results, r.BrokeDown →
        p.client.Overruns (runTests p tests s).session.now := by
  induction tests with
  | nil => exact fun _ _ => nofun
  | cons t rest ih =>
      intro hall s r hr hbroke
      have hlook := now_of_isConnected p (runTest p t s).1
      have hfirst : (runTest p t s).2.BrokeDown →
          p.client.Overruns (isConnected p (runTest p t s).1).1.now := fun h =>
        hlook ▸ overruns_of_brokeDown (hall t List.mem_cons_self) h
      simp only [runTests] at hr ⊢
      split at hr
      · rename_i s' heq
        rw [heq] at hfirst
        cases List.mem_singleton.mp hr
        exact hfirst hbroke
      · rename_i s' heq
        rw [heq] at hfirst
        rcases List.mem_cons.mp hr with rfl | hr
        · exact (hfirst hbroke).mono (now_le_runTests p rest s')
        · exact ih (fun t' ht' => hall t' (List.mem_cons_of_mem _ ht')) r hr hbroke

/-! ## Looks and the stop -/

/-- A look at the server breaks nothing down. -/
theorem not_crashed_of_look (T : Transport σ) (o : ClientOptions) (s : Session σ) (m : String) :
    ((Check.isConnected.run).run T o none s).2 ≠ .crashed m := by
  have hgather := gather_of_query T o .connected s
  show (Program.run T o none (.gather .all [{ work := .use (.ask .connected) }] _) s).2 ≠ _
  rw [Program.run, hgather]
  show (Program.run T o none _ _).2 ≠ _
  intro h
  cases hlook : (Board.look T s .connected).2 <;> rw [hlook] at h <;> cases h

/-- Nor does its stop. -/
theorem not_crashed_of_stop (T : Transport σ) (o : ClientOptions) (grace : Duration)
    (s : Session σ) (m : String) :
    ((Check.perform (.shutdown grace)).run.run T o none s).2 ≠ .crashed m := by
  have hgather := gather_of_shutdown T o grace s
  show (Program.run T o none (.gather .all [{ work := .use (.shutdown grace) }] _) s).2 ≠ _
  rw [Program.run, hgather]
  show (Program.run T o none _ _).2 ≠ _
  intro h
  cases hstop : (T.stop s.now grace s.wire).result <;> rw [hstop] at h <;> cases h

end Runner

namespace Application

variable {p : RunPlan σ} {keys : List String} {s : Session σ}

/-! ## Suites -/

theorem now_le_runSuites (p : RunPlan σ) (suites : List Suite) (r : Runner σ) :
    r.session.now ≤ (runSuites p suites r).1.session.now := by
  obtain ⟨records, htour⟩ := tour_of_runSuites p suites r
  exact total_of_runSuites p suites htour.results ▸ Nat.le_add_right _ _

theorem overruns_of_runSuites : ∀ {suites : List Suite}, (∀ suite ∈ suites, suite.Spares) →
    ∀ {r : Runner σ} {records : List SuiteResult},
      (runSuites p suites r).1.results = r.results ++ records →
      ∀ record ∈ records, ∀ result ∈ record.tests, result.BrokeDown →
        p.client.Overruns (runSuites p suites r).1.session.now := by
  intro suites
  induction suites with
  | nil =>
      intro _ r records h record hmem
      rw [List.self_eq_append_right.mp h] at hmem
      exact nomatch hmem
  | cons first rest ih =>
      intro hall r records h record hmem result hresult hbroke
      have hresults := results_of_runSuite p first.title first.tests r
      have hsession := session_of_runSuite p first.title first.tests r
      have hfirst := overruns_of_runTests (p := p) (s := r.session)
        fun t ht => hall first List.mem_cons_self t ht p.project
      simp only [runSuites] at h ⊢
      generalize runSuite p first.title first.tests r = done at hresults hsession h
      obtain ⟨r', done⟩ := done
      dsimp only at hresults hsession
      rw [← hsession] at hfirst
      cases done with
      | ok _ =>
          obtain ⟨later, hlater⟩ : ∃ later, (runSuites p rest r').1.results = r'.results ++ later :=
            (tour_of_runSuites p rest r').imp fun _ htour => htour.results
          dsimp only at h ⊢
          have hall' : ∀ suite ∈ rest, suite.Spares := fun suite hsuite =>
            hall suite (List.mem_cons_of_mem _ hsuite)
          rw [hlater, hresults, List.append_assoc] at h
          rw [← List.append_cancel_left h] at hmem
          rcases List.mem_append.mp hmem with hhere | hthere
          · cases List.mem_singleton.mp hhere
            exact (hfirst result hresult hbroke).mono (now_le_runSuites p rest r')
          · exact ih hall' hlater record hthere result hresult hbroke
      | error e =>
          dsimp only at h ⊢
          rw [hresults] at h
          rw [← List.append_cancel_left h] at hmem
          cases List.mem_singleton.mp hmem
          exact hfirst result hresult hbroke

/-! ## The opening -/

/-- What an opening gives: the session, if it is open. -/
def openedBy : Session σ × End (Except ClientError Unit) → Opened σ
  | (s, .done (.ok _)) => .done (.ok s)
  | (_, .done (.error e)) => .done (.error e)
  | (_, .crashed m) => .crashed m
  | (_, .dropped) => .dropped

/-- Starts a server, in its first state, and opens a session with it; `boot` is what the clock
shows then. -/
def opening (T : Transport σ) (launch : ServerCommand → Except ClientError σ) (boot : Instant)
    (o : ClientOptions) (c : ServerCommand) : Opened σ :=
  match launch c with
  | .error e => .done (.error e)
  | .ok w => openedBy (Runner.connect T o { now := boot, wire := w })

/-- The line that asks for a session. -/
def firstLine (o : ClientOptions) : String := (openInquiry o).line 1

theorem spawn_eq_opening (files : Machine.Files) :
    spawn files = opening Machine.Server.transport (Machine.Server.start files 0) 0 := by
  funext o c
  rw [spawn, opening]
  cases Machine.Server.start files 0 c with
  | error e => rfl
  | ok server =>
      dsimp only
      rcases connect Machine.Server.transport o { wire := server } with ⟨s, (e | u) | m | _⟩ <;> rfl

/-- What the program does on a machine is such a run, whatever its settings come from. -/
theorem execute_eq_run {files : Machine.Files} {env : Settings.Environment} {args : List String}
    {invocation : Invocation} {flags : RunFlags} {settings : Settings}
    (hparse : CommandLine.parse args = .ok invocation) (hrun : invocation.command = .run flags)
    (hload : Settings.load files env invocation.config = .ok settings) :
    execute files env args =
      run Machine.Server.transport
        (opening Machine.Server.transport (Machine.Server.start files 0) 0)
        (flags.apply settings) := by
  simp only [execute, hparse, hload, hrun, carryOut, spawn_eq_opening]

variable {T : Transport σ} {launch : ServerCommand → Except ClientError σ} {boot : Instant}
variable {o : ClientOptions}
variable {c : ServerCommand} {m : String}

/-- An opening breaks down if its only branch does. -/
theorem connect_crashed_iff {s : Session σ} : (connect T o s).2 = .crashed m ↔
    (gather T o .all none [{ work := .use .connect }] s).2.bind crashIn = some m := by
  have hlength := @length_of_gather σ T o .all none [{ work := .use .connect }] s
  rw [connect]
  generalize gather T o .all none [{ work := .use .connect }] s = gathered at hlength ⊢
  obtain ⟨s', endings⟩ := gathered
  cases endings with
  | none => simp
  | some endings =>
      obtain ⟨e, rfl⟩ := List.length_eq_one_iff.mp (hlength rfl)
      rcases e with (e | reply) | _ | m' <;> simp [crashIn]

theorem openedBy_crashed_iff {connected : Session σ × End (Except ClientError Unit)} :
    openedBy connected = .crashed m ↔ connected.2 = .crashed m := by
  rcases connected with ⟨s, (e | u) | m' | _⟩ <;> simp [openedBy]

theorem connected_of_openedBy {connected : Session σ × End (Except ClientError Unit)}
    {s : Session σ} (h : openedBy connected = .done (.ok s)) : connected = (s, .done (.ok ())) := by
  rcases connected with ⟨s', (e | u) | m' | _⟩
  · exact nomatch h
  · cases h
    rfl
  · exact nomatch h
  · exact nomatch h

/-- The opening breaks down if and only if its request was written well and the deadline, counted
from then on, lies beyond the clock. -/
theorem opening_breaks_iff : opening T launch boot o c = .crashed m ↔
    m = clockOverflow ∧ ∃ w u, launch c = .ok w ∧ (T.write boot (firstLine o) w).ends = some u ∧
      (T.write boot (firstLine o) w).result.isOk = true ∧ o.Overruns (max boot u) := by
  rw [opening]
  cases hlaunch : launch c with
  | error e => simp
  | ok w =>
      have hbegin : ({} : Connection).begin o .connect
          = ({ state := .opening, lastId := 1, inFlight := some 1 },
            .next (.write (.request .opening 1) (firstLine o))) := rfl
      have hbreaks := breaks_of_request (T := T) (m := m) (s := { now := boot, wire := w }) hbegin
      rw [openedBy_crashed_iff, connect_crashed_iff, hbreaks]
      simp

/-- With a request timeout that no clock can tell no session is ever opened. -/
theorem not_opening_of_longest (hover : clockEnd ≤ o.requestTimeout) (s : Session σ) :
    opening T launch boot o c ≠ .done (.ok s) := by
  intro h
  rw [opening] at h
  cases hlaunch : launch c with
  | error e =>
      rw [hlaunch] at h
      exact nomatch h
  | ok w =>
      rw [hlaunch] at h
      obtain ⟨reply, hgather⟩ := gather_of_connect (connected_of_openedBy h)
      have hready : Operation.connect.Gives s.conn.state (.ok reply) :=
        gives_of_gather T o .all none rfl hgather
      refine shut_of_gather (T := T) (s := { now := boot, wire := w }) hover .all none
        [{ work := .use .connect }] nofun ?_
      rw [hgather]
      exact hready

/-! ## The end of a run -/

theorem exit_conclude (printed : String) (results : List SuiteResult) (aborted : Option RunError) :
    ((conclude printed results aborted).exit = 101 ↔
      Summary.durationLimit ≤ Duration.total (results.map (·.duration))) ∧
      ((conclude printed results aborted).exit ≤ 1 ∨
        (conclude printed results aborted).exit = 101) := by
  rw [conclude, Summary.of_eq_ite]
  by_cases hroom : Duration.total (results.map SuiteResult.duration) < Summary.durationLimit
  · have hexit : ∀ summary : Summary, summary.exitCode ≤ 1 := fun summary => by
      rw [Summary.exitCode]
      split <;> decide
    rw [if_pos hroom]
    cases aborted with
    | some e => exact ⟨iff_of_false (by simp [failed]) (Nat.not_le.mpr hroom), .inl (Nat.le_refl 1)⟩
    | none =>
        refine ⟨iff_of_false (fun h => ?_) (Nat.not_le.mpr hroom), .inl (hexit _)⟩
        exact absurd (h ▸ hexit _) (by decide : ¬ 101 ≤ 1)
  · rw [if_neg hroom]
    exact ⟨iff_of_true rfl (Nat.not_lt.mp hroom), .inr rfl⟩

theorem exit_of_crashed {start : ClientOptions → ServerCommand → Opened σ} {settings : Settings}
    (hvalid : settings.fault = none)
    (hstart : start settings.clientOptions settings.serverCommand = .crashed m) :
    (run T start settings).exit = 101 := by
  rw [run, hvalid]
  dsimp only
  rw [hstart]
  rfl

theorem exit_of_error {start : ClientOptions → ServerCommand → Opened σ} {settings : Settings}
    {e : ClientError} (hvalid : settings.fault = none)
    (hstart : start settings.clientOptions settings.serverCommand = .done (.error e)) :
    (run T start settings).exit = 1 := by
  rw [run, hvalid]
  dsimp only
  rw [hstart]
  rfl

theorem exit_of_opened {start : ClientOptions → ServerCommand → Opened σ} {settings : Settings}
    {s : Session σ} (hvalid : settings.fault = none)
    (hstart : start settings.clientOptions settings.serverCommand = .done (.ok s)) :
    ((run T start settings).exit = 101 ↔ Summary.durationLimit ≤ Duration.total
      ((tourOf (planOf T settings) settings.suites s).1.results.map (·.duration))) ∧
      ((run T start settings).exit ≤ 1 ∨ (run T start settings).exit = 101) := by
  rw [run_of_session hvalid hstart]
  exact exit_conclude _ _ _

/-- A run whose opening ends breaks down there, or because the suites took too long for their
durations to be summed up; else it ends with status `0` or `1`. -/
theorem exit_of_run {settings : Settings} (hvalid : settings.fault = none)
    (hends : opening T launch boot settings.clientOptions settings.serverCommand ≠ .dropped) :
    ((run T (opening T launch boot) settings).exit ≤ 1 ∨
      (run T (opening T launch boot) settings).exit = 101) ∧
    ((run T (opening T launch boot) settings).exit = 101 ↔
      opening T launch boot settings.clientOptions settings.serverCommand
        = .crashed clockOverflow ∨
      ∃ s, opening T launch boot settings.clientOptions settings.serverCommand = .done (.ok s) ∧
        Summary.durationLimit ≤ Duration.total
          ((tourOf (planOf T settings) settings.suites s).1.results.map (·.duration))) := by
  cases hcase : opening T launch boot settings.clientOptions settings.serverCommand with
  | dropped => exact absurd hcase hends
  | crashed m =>
      have hm : m = clockOverflow := (opening_breaks_iff.mp hcase).1
      have hexit : (run T (opening T launch boot) settings).exit = 101 :=
        exit_of_crashed hvalid hcase
      exact ⟨.inr hexit, iff_of_true hexit (.inl (by rw [hm]))⟩
  | done result =>
      cases result with
      | error e =>
          have hexit : (run T (opening T launch boot) settings).exit = 1 :=
            exit_of_error hvalid hcase
          refine ⟨.inl (Nat.le_of_eq hexit), iff_of_false (by rw [hexit]; decide) ?_⟩
          rintro (hcrashed | ⟨s, hs, -⟩)
          · cases hcrashed
          · cases hs
      | ok s =>
          obtain ⟨hexit, hany⟩ := exit_of_opened (T := T) hvalid hcase
          refine ⟨hany, hexit.trans ⟨fun hlong => .inr ⟨s, rfl, hlong⟩, ?_⟩⟩
          rintro (hcrashed | ⟨s, ⟨⟩, hlong⟩)
          · cases hcrashed
          · exact hlong

/-- No duration on record is longer than the run. -/
theorem total_le_now (p : RunPlan σ) (keys : List String) (s : Session σ) :
    Duration.total ((tourOf p keys s).1.results.map (·.duration))
      ≤ (tourOf p keys s).1.session.now := by
  have htotal : (settled p s).session.now
      + Duration.total ((tourOf p keys s).1.results.map (·.duration))
        = (tourOf p keys s).1.session.now :=
    total_of_runSuites p (suitesOf keys) (tour_of_tourOf p keys s).results
  exact htotal ▸ Nat.le_add_left _ _

/-- Of a run with valid settings: it breaks down if its opening does, or if its suites took longer
than a sum of durations can tell; else it ends with status 0 or 1, if a server takes its first
line at all.  The opening breaks down if its request was written well and the deadline lies beyond
the clock, counted from then on; with a request timeout that the clock cannot tell, no
session is ever opened.  A test breaks down if a response comes to be awaited in it whose deadline
lies beyond the clock, and is recorded as failed; looks at the server and its stop never do.  So a
run that is over while the request timeout still fits the clock has broken down nowhere, whatever
the other lengths of time in its settings. -/
theorem run_breaks_down (T : Transport σ) (launch : ServerCommand → Except ClientError σ)
    (boot : Instant) (settings : Settings) (hvalid : settings.fault = none) :
    let o := settings.clientOptions
    let p := planOf T settings
    let opened := opening T launch boot o settings.serverCommand
    let out := run T (opening T launch boot) settings
    (opened ≠ .dropped → (out.exit ≤ 1 ∨ out.exit = 101) ∧
      (out.exit = 101 ↔ opened = .crashed clockOverflow ∨ ∃ s, opened = .done (.ok s) ∧
        Summary.durationLimit
          ≤ Duration.total ((tourOf p settings.suites s).1.results.map (·.duration)))) ∧
    (opened = .crashed clockOverflow ↔ ∃ w u, launch settings.serverCommand = .ok w ∧
      (T.write boot (firstLine o) w).ends = some u ∧
      (T.write boot (firstLine o) w).result.isOk = true ∧ o.Overruns (max boot u)) ∧
    (Word.signedBound ≤ settings.timeouts.requestSecs → ∀ s, opened ≠ .done (.ok s)) ∧
    (∀ suite ∈ suitesOf settings.suites, ∀ t ∈ suite.tests, ∀ s,
      ((runTest p t s).2.BrokeDown ↔ ∃ u ∈ awaitsOf p t s, o.Overruns u) ∧
      ((runTest p t s).2.BrokeDown →
        (runTest p t s).2.error = some ("test panicked: " ++ clockOverflow))) ∧
    (∀ s m, ((Check.isConnected.run).run T o none s).2 ≠ .crashed m ∧
      ((Check.perform (.shutdown p.runner.grace)).run.run T o none s).2 ≠ .crashed m) ∧
    ∀ s, opened = .done (.ok s) → ¬ o.Overruns (tourOf p settings.suites s).1.session.now →
      out.exit ≤ 1 ∧ ∀ record ∈ (tourOf p settings.suites s).1.results,
        ∀ r ∈ record.tests, ¬ r.BrokeDown := by
  intro o p opened out
  have hspares : ∀ suite ∈ suitesOf settings.suites, suite.Spares := fun suite hmem => by
    obtain ⟨key, hkey⟩ := find_of_suitesOf hmem
    exact Suite.spares_of_find hkey
  have hopening : opened = .crashed clockOverflow ↔ _ :=
    opening_breaks_iff.trans (and_iff_right rfl)
  refine ⟨exit_of_run hvalid, hopening, fun hover s => ?_, fun suite hsuite t ht s => ?_,
    fun s m => ⟨not_crashed_of_look T o s m, not_crashed_of_stop T o p.runner.grace s m⟩,
    fun s hopened hearly => ?_⟩
  · exact not_opening_of_longest (Nat.mul_le_mul_right _ hover) s
  · have honly := hspares suite hsuite t ht settings.projectPath
    exact ⟨brokeDown_iff honly s, error_of_brokeDown honly⟩
  · have hopened' : opening T launch boot settings.clientOptions settings.serverCommand
        = .done (.ok s) := hopened
    obtain ⟨hexit, hany⟩ := exit_of_opened (T := T) hvalid hopened'
    refine ⟨hany.resolve_right fun h => hearly ?_, fun record hrecord r hr hbroke => hearly ?_⟩
    · -- a sum that has no room is longer than the clock can tell
      have hlimit : clockEnd ≤ Summary.durationLimit := by decide
      refine Nat.le_trans ?_ (Nat.le_add_right _ _)
      exact Nat.le_trans hlimit (Nat.le_trans (hexit.mp h) (total_le_now p settings.suites s))
    · exact overruns_of_runSuites (p := p) hspares (tour_of_tourOf p settings.suites s).results
        record hrecord r hr hbroke

/-- Two suites, with the longest request timeout. -/
def longestRequests : Settings := { twoSuites with timeouts := { requestSecs := Word.bound - 1 } }

/-- Two suites, with all other lengths of time the longest. -/
def longestPauses : Settings :=
  { twoSuites with timeouts :=
      { testSecs := Word.bound - 1, settleMillis := Word.bound - 1, graceSecs := Word.bound - 1 } }

/-- A server takes two lines and opens a session.  With the longest request timeout the run breaks
down all the same; with everything else as long as can be it does not. -/
theorem run_breaks_down_of_longest_requests :
    let start := opening (obliging 1) (fun _ => .ok 2) 0
    longestRequests.fault = none ∧
    (run (obliging 1) start longestRequests).exit = 101 ∧
    (∀ s, start longestRequests.clientOptions longestRequests.serverCommand ≠ .done (.ok s)) ∧
    longestPauses.fault = none ∧
    (run (obliging 1) start longestPauses).exit ≤ 1 := by
  have hvalid : longestRequests.fault = none := by decide +kernel
  have hvalid' : longestPauses.fault = none := by decide +kernel
  obtain ⟨hexit, hopening, hnever, -⟩ :=
    run_breaks_down (obliging 1) (fun _ => .ok 2) 0 longestRequests hvalid
  obtain ⟨-, -, -, -, -, hearly⟩ :=
    run_breaks_down (obliging 1) (fun _ => .ok 2) 0 longestPauses hvalid'
  have hcrashed := hopening.mpr ⟨2, 0, rfl, rfl, rfl, by decide⟩
  refine ⟨hvalid, ?_, hnever (by decide), hvalid', ?_⟩
  · exact (hexit (by rw [hcrashed]; exact nofun)).2.mpr (.inl hcrashed)
  · have hopened : opening (obliging 1) (fun _ => .ok 2) 0 longestPauses.clientOptions
        longestPauses.serverCommand = .done (.ok frailRunner.session) := by
      have hgather := @opens_of_created longestPauses.clientOptions {} 0 0 rfl (by decide)
        (by decide) (by decide)
      rw [opening]
      dsimp only
      rw [connect, hgather]
      rfl
    have hnow : (tourOf (planOf (obliging 1) longestPauses) longestPauses.suites
        frailRunner.session).1.session.now = Duration.ofMillis (Word.bound - 1) := by
      have hsmoke : Suite.find? "smoke" = some Suite.Smoke.suite := List.find?_cons_of_pos rfl
      rw [tourOf, suitesOf, longestPauses, twoSuites, List.filterMap_cons, hsmoke]
      rfl
    refine (hearly _ hopened ?_).1
    rw [hnow]
    decide

end Application

end Conformance
