/-
Conformance — which failures end a suite.

A runner only ever has a session that is open, or has been lost (`lasting_of_reached`), so
what holds of such a session holds of every test it runs: a fatal error of an operation loses
the session, and nothing else does but a shutdown.  The look after each test turns this
into the abort of the suite: a result with a fatal error is the last one, and without such an
error, without a shutdown and while the server is alive no suite is cut short.
-/
import Conformance.Proofs.Run.Isolation
import Conformance.Proofs.Session.Loss

namespace Conformance

open Program ClientState

variable {σ : Type}

/-- The details of a result say that it was a fatal error of the client. -/
def TestResult.SaysFatal (r : TestResult) : Prop :=
  ∃ d, r.details = some d ∧ d.get? "fatal" = some (.bool true)

namespace Runner

/-- A runner after its session was opened, and after suites that it ran or began to run. -/
inductive Reached (p : RunPlan σ) : Runner σ → Prop
  | start {s s' : Session σ} {r : Runner σ} : Runner.start p s = (s', .done (.ok r)) → Reached p r
  | suite {r : Runner σ} (name : String) (tests : List TestCase) :
      Reached p r → Reached p (runSuite p name tests r).1

/-- The errors with which the operations of a test end that starts in this session. -/
def errorsOf (p : RunPlan σ) (t : TestCase) (s : Session σ) : List ClientError :=
  (t.body p.project).run.errors p.transport p.client (some (limitOf p s)) s

/-- The operations that start in such a test. -/
def callsOf (p : RunPlan σ) (t : TestCase) (s : Session σ) : List Operation :=
  (t.body p.project).run.calls p.transport p.client (some (limitOf p s)) s

/-- By the end of the test with number `i` an operation has ended with this error. -/
def MetBy (p : RunPlan σ) (tests : List TestCase) (s : Session σ) (i : Nat) (e : ClientError) :
    Prop :=
  ∃ j ≤ i, ∃ t, tests[j]? = some t ∧ e ∈ errorsOf p t (sessionOf p tests s j)

/-- The test breaks neither the client nor the server: no operation ends with a fatal error,
no shutdown starts, and the transport says that the server is there. -/
structure Harmless (p : RunPlan σ) (t : TestCase) (s : Session σ) : Prop where
  errors : ∀ e ∈ errorsOf p t s, e.isFatal = false
  calls : ∀ grace, .shutdown grace ∉ callsOf p t s
  alive : (p.transport.connected (runTest p t s).1.now (runTest p t s).1.wire).2 = true

section Sessions

variable {p : RunPlan σ} {t : TestCase} {tests : List TestCase} {s s' : Session σ}
variable {r : Runner σ}

/-! ## The session of a runner -/

theorem spares_of_test (t : TestCase) (hl : s.conn.state.Lasting) :
    Spares (errorsOf p t s) (callsOf p t s) s (runTest p t s).1 := by
  rw [runTest_eq]
  exact spares_of_program _ hl

theorem conn_of_isConnected (p : RunPlan σ) (s : Session σ) : (isConnected p s).1.conn = s.conn := by
  rw [isConnected_eq]
  exact conn_of_look p.transport s .connected

/-- Every test starts in a session that is open or lost. -/
theorem lasting_of_sessionOf (tests : List TestCase) : ∀ {s : Session σ} (i : Nat),
    s.conn.state.Lasting → (sessionOf p tests s i).conn.state.Lasting := by
  induction tests with
  | nil => exact fun _ hl => hl
  | cons t rest ih =>
      intro s i hl
      cases i with
      | zero => exact hl
      | succ i =>
          refine ih i ?_
          rw [conn_of_isConnected]
          exact hl.falls (spares_of_test t hl).falls

theorem gather_of_connect {T : Transport σ} {o : ClientOptions} {u : Unit}
    (h : connect T o s = (s', .done (.ok u))) :
    ∃ reply, gather T o .all none [{ work := .use .connect }] s
      = (s', some [.returned (.ok reply)]) := by
  rw [connect] at h
  split at h
  · rename_i hgather
    cases h
    exact ⟨_, hgather⟩
  all_goals exact nomatch h

/-- A session that was opened is ready. -/
theorem ready_of_start (h : Runner.start p s = (s', .done (.ok r))) :
    r.session.conn.state = .ready := by
  rw [Runner.start] at h
  split at h
  · rename_i s₁ u hconnect
    cases h
    obtain ⟨reply, hgather⟩ := gather_of_connect hconnect
    have hgives : Operation.connect.Gives s₁.conn.state (.ok reply) :=
      gives_of_gather p.transport p.client .all none rfl hgather
    exact hgives
  all_goals exact nomatch h

theorem session_of_runSuite (p : RunPlan σ) (name : String) (tests : List TestCase)
    (r : Runner σ) : (runSuite p name tests r).1.session = (runTests p tests r.session).session := by
  rw [runSuite]
  cases (runTests p tests r.session).lost <;> rfl

/-- A suite is recorded, whether or not it was cut short. -/
theorem results_of_runSuite (p : RunPlan σ) (name : String) (tests : List TestCase)
    (r : Runner σ) :
    (runSuite p name tests r).1.results = r.results ++
      [{ name, tests := (runTests p tests r.session).results
         duration := (runTests p tests r.session).session.now - r.session.now }] := by
  rw [runSuite]
  cases (runTests p tests r.session).lost <;> rfl

theorem lasting_of_reached (h : Reached p r) : r.session.conn.state.Lasting := by
  induction h with
  | start h => exact .inl (ready_of_start h)
  | @suite r name tests _ ih =>
      rw [session_of_runSuite, (course_of_runTests p tests r.session).session]
      exact lasting_of_sessionOf tests _ ih

/-! ## Results -/

/-- Only the error of an operation that is fatal says so. -/
theorem fatal_of_saysFatal {name : String} {timeout duration : Duration}
    {e : End (Except Failure Unit)} (h : (resultOf name timeout duration e).SaysFatal) :
    ∃ f inner, e = .done (.error f) ∧ f.cause = .inl inner ∧ inner.isFatal = true := by
  obtain ⟨d, hd, hfatal⟩ := h
  rcases e with (f | u) | m | _
  · cases hcause : f.cause with
    | inl inner =>
        have hdetails : d = details f := (Option.some.inj hd).symm
        rw [hdetails, details, hcause] at hfatal
        exact ⟨f, inner, rfl, hcause, Json.bool.inj (Option.some.inj hfatal)⟩
    | inr text =>
        have hdetails : d = details f := (Option.some.inj hd).symm
        rw [hdetails, details, hcause] at hfatal
        exact nomatch hfatal
  · exact nomatch hd
  · cases hd
    exact nomatch hfatal
  · cases hd
    exact nomatch hfatal

/-- A fatal error leaves the server gone after the test in which it was met. -/
theorem down_of_errors {e : ClientError} {i : Nat} (hl : s.conn.state.Lasting)
    (ht : tests[i]? = some t) (he : e ∈ errorsOf p t (sessionOf p tests s i))
    (hfatal : e.isFatal = true) : ¬ UpAfter p tests s i := by
  intro hup
  exact (hup t ht).1 ((spares_of_test t (lasting_of_sessionOf tests i hl)).fatal e he hfatal)

/-- A run of tests goes no further than a test after which the server is gone. -/
theorem last_of_down {run : TestRun σ} {i j : Nat} (hc : Course p tests s run) (hji : j ≤ i)
    (hi : i < run.results.length) (hdown : ¬ UpAfter p tests s j) :
    run.results.length = i + 1 ∧ ∃ t, tests[i]? = some t ∧ run.lost = some t.name := by
  cases hlost : run.lost with
  | none => exact absurd ((hc.all hlost).2 j) hdown
  | some name =>
      obtain ⟨k, t, ht, rfl, hlength, hups, _⟩ := hc.lost name hlost
      have hkj : k ≤ j := Nat.not_lt.mp fun hlt => hdown (hups j hlt)
      have hik : i = k := by omega
      subst hik
      exact ⟨hlength, t, ht, rfl⟩

/-- Up to a test that is harmless, after tests that are, the session stays open. -/
theorem open_of_harmless {k : Nat} : ∀ {tests : List TestCase} {s : Session σ},
    s.conn.state = .ready →
    (∀ i ≤ k, ∀ t, tests[i]? = some t → Harmless p t (sessionOf p tests s i)) →
    UpAfter p tests s k := by
  have hstep : ∀ {t : TestCase} {s : Session σ}, s.conn.state = .ready → Harmless p t s →
      (runTest p t s).1.conn.state = .ready := by
    intro t s hs ht
    have hspares := spares_of_test (p := p) t (.inl hs)
    refine ((ClientState.Lasting.falls (.inl hs) hspares.falls).resolve_right fun hdown => ?_)
    rcases hspares.cause hdown with hbefore | ⟨e, he, hfatal⟩ | ⟨grace, hcall⟩
    · exact nomatch hs.symm.trans hbefore
    · exact absurd hfatal (Bool.eq_false_iff.mp (ht.errors e he))
    · exact ht.calls grace hcall
  induction k with
  | zero =>
      intro tests s hs hall t ht
      have hsession := sessionOf_zero p tests s
      have hharmless := hall 0 (Nat.le_refl 0) t ht
      rw [hsession] at hharmless ⊢
      exact ⟨by rw [hstep hs hharmless]; exact nofun, hharmless.alive⟩
  | succ k ih =>
      intro tests s hs hall
      cases tests with
      | nil => exact nofun
      | cons first rest =>
          have hfirst : Harmless p first s := hall 0 (Nat.zero_le _) first rfl
          have hready : (isConnected p (runTest p first s).1).1.conn.state = .ready := by
            rw [conn_of_isConnected]
            exact hstep hs hfirst
          exact ih hready fun i hi t ht => hall (i + 1) (Nat.succ_le_succ hi) t ht

end Sessions

/-- An operation that runs alone and fails leaves the client disconnected if and only if its
error is fatal; for the opening of a session the error inside says so, and if it is not fatal the
session can still be opened.

Of the suites of a runner: a result that says that its error was fatal is the last of its
suite, and the loss of the connection is reported, if the error is one that an operation
met; and a suite whose tests are harmless, run on a client that is not disconnected, is never cut
short. -/
theorem abort_policy :
    (∀ (T : Transport σ) (o : ClientOptions) mode deadline (br : Branch) op s s' e,
      br.work = .use op → op.heedsPolicy = true → op ≠ .connect →
      gather T o mode deadline [br] s = (s', some [.returned (.error e)]) →
      (e.isFatal = true ↔ s'.conn.state = .disconnected)) ∧
    (∀ (T : Transport σ) (o : ClientOptions) mode deadline (br : Branch) s s' e,
      br.work = .use .connect →
      gather T o mode deadline [br] s = (s', some [.returned (.error e)]) →
      ∃ inner, e = .handshake inner ∧ (inner.isFatal = true ↔ s'.conn.state = .disconnected) ∧
        (inner.isFatal = false → s'.conn.state = .created ∧
          ∀ now, s'.conn.lastId + 1 < Word.bound → 0 < o.requestTimeout →
            now + o.requestTimeout < clockEnd →
            ∃ (U : Transport Nat) (w : Nat) (s'' : Session Nat),
              gather U o .all none [{ work := .use .connect }] { now, conn := s'.conn, wire := w }
                = (s'', some [.returned (.ok .done)]) ∧ s''.conn.state = .ready)) ∧
    ∀ (p : RunPlan σ) (r : Runner σ) (name : String) (tests : List TestCase), Reached p r →
      ∃ suite : SuiteResult, (runSuite p name tests r).1.results = r.results ++ [suite] ∧
        (∀ i t result, tests[i]? = some t → suite.tests[i]? = some result → result.SaysFatal →
          (∀ f e, (runLimited p t (sessionOf p tests r.session i)).2 = .done (.error f) →
            f.cause = .inl e → MetBy p tests r.session i e) →
          suite.tests.length = i + 1 ∧
            ∃ tail, (runSuite p name tests r).2 = .error (.connectionLost name t.name tail)) ∧
        (r.session.conn.state ≠ .disconnected →
          (∀ i t, i < suite.tests.length → tests[i]? = some t →
            Harmless p t (sessionOf p tests r.session i)) →
          suite.tests.length = tests.length ∧ (runSuite p name tests r).2 = .ok suite) := by
  refine ⟨?_, ?_, ?_⟩
  · intro T o mode deadline br op s s' e hw hheeds hconnect hgather
    have hgives := gives_of_gather T o mode deadline hw hgather
    cases op with
    | connect => exact absurd rfl hconnect
    | request | unprintable | listTools | notify => exact hgives
    | shutdown | ask => exact nomatch hheeds
  · intro T o mode deadline br s s' e hw hgather
    obtain ⟨inner, rfl, hfatal, hstate⟩ := gives_of_gather T o mode deadline hw hgather
    refine ⟨inner, rfl, hfatal, fun hnot => ?_⟩
    have hcreated : s'.conn.state = .created :=
      hstate.resolve_left fun hdown => absurd (hfatal.mpr hdown) (Bool.eq_false_iff.mp hnot)
    refine ⟨hcreated, fun now hid hlimit hclock => ?_⟩
    exact ⟨_, _, _, opens_of_created 0 hcreated hid hlimit hclock, rfl⟩
  · intro p r name tests hreached
    have hl := lasting_of_reached hreached
    have hc := course_of_runTests p tests r.session
    refine ⟨_, results_of_runSuite p name tests r, ?_, ?_⟩ <;> rw [runSuite] <;>
      generalize runTests p tests r.session = run at hc
    · intro i t result ht hresult hsays hmet
      obtain ⟨t', ht', rfl⟩ := hc.results i result hresult
      cases ht.symm.trans ht'
      rw [runTest_eq] at hsays
      obtain ⟨f, e, hend, hcause, hfatal⟩ := fatal_of_saysFatal hsays
      obtain ⟨j, hji, t', ht', he⟩ := hmet f e hend hcause
      obtain ⟨hlength, t'', ht'', hlost⟩ := last_of_down hc hji
        (List.getElem?_eq_some_iff.mp hresult).1 (down_of_errors hl ht' he hfatal)
      cases ht.symm.trans ht''
      exact ⟨hlength, by rw [hlost]; exact ⟨_, rfl⟩⟩
    · intro hconnected hharmless
      have hready : r.session.conn.state = .ready := hl.resolve_right hconnected
      cases hlost : run.lost with
      | none => exact ⟨(hc.all hlost).1, rfl⟩
      | some test =>
          obtain ⟨k, _, _, _, hlength, _, hdown⟩ := hc.lost test hlost
          refine absurd (open_of_harmless hready fun i hi t ht => ?_) hdown
          exact hharmless i t (hlength ▸ Nat.lt_succ_of_le hi) ht

/-- A plan for a server that takes so many lines. -/
def frailPlan : RunPlan Nat :=
  { transport := obliging 1, client := {}, runner := { settle := 0 }, project := "" }

/-- A runner whose server takes no line any more. -/
def frailRunner : Runner Nat :=
  { session := { wire := 0, conn := { state := .ready, lastId := 1, server := some {} } } }

/-- A test that asks for the tools. -/
def lists : TestCase := { name := "lists", body := fun _ => do let _ ← Check.listTools }

/-- A test with a broken expectation. -/
def breaks : TestCase := { name := "breaks", body := fun _ => Check.fail (.ofText "") }

/-- The pipe breaks in a listing, and as a session is opened.  A session that a silent server did
not open can be opened.  In a suite the pipe breaks in the second of three tests; a suite
with nothing but broken expectations runs to its end. -/
theorem abort_policy_of_broken_pipe :
    (∃ s, gather (obliging 1) {} .all none [{ work := .use .listTools }] frailRunner.session
        = (s, some [.returned (.error (.io "broken pipe"))]) ∧ s.conn.state = .disconnected) ∧
    (∃ s, gather (obliging 1) {} .all none [{ work := .use .connect }] { wire := 0 }
        = (s, some [.returned (.error (.handshake (.io "broken pipe")))]) ∧
          s.conn.state = .disconnected) ∧
    (∃ s, gather fading { requestTimeout := 1 } .all none [{ work := .use .connect }]
        { wire := 0 } = (s, some [.returned (.error (.handshake (.readTimeout 1)))]) ∧
      ∃ (U : Transport Nat) (w : Nat) (s' : Session Nat),
        gather U { requestTimeout := 1 } .all none [{ work := .use .connect }]
          { now := 0, conn := s.conn, wire := w }
            = (s', some [.returned (.ok .done)]) ∧ s'.conn.state = .ready) ∧
    Reached frailPlan frailRunner ∧
    (∃ tail, (runSuite frailPlan "s" [breaks, lists, breaks] frailRunner).2
      = .error (.connectionLost "s" "lists" tail)) ∧
    ∃ suite, (runSuite frailPlan "s" [breaks, breaks] frailRunner).2 = .ok suite := by
  obtain ⟨hops, hopens, hsuites⟩ := abort_policy (σ := Nat)
  have hsilent : gather fading { requestTimeout := 1 } .all none [{ work := .use .connect }]
      { wire := 0 } = ({ now := 1, conn := { lastId := 1, inFlight := some 1 }, wire := 0 },
        some [.returned (.error (.handshake (.readTimeout 1)))]) := rfl
  have hstart : Runner.start frailPlan { wire := 2 }
      = (frailRunner.session, .done (.ok frailRunner)) := by
    have hopened := @opens_of_created {} {} 0 0 rfl (by decide) (by decide) (by decide)
    rw [Runner.start, connect, frailPlan, hopened]
    rfl
  have hreached : Reached frailPlan frailRunner := .start hstart
  refine ⟨⟨_, rfl, ?_⟩, ⟨_, rfl, ?_⟩, ⟨_, hsilent, ?_⟩, hreached, ?_, ?_⟩
  · exact (hops (obliging 1) {} .all none { work := .use .listTools } .listTools
      frailRunner.session _ (.io "broken pipe") rfl rfl nofun rfl).mp rfl
  · obtain ⟨inner, hinner, hdown, _⟩ := hopens (obliging 1) {} .all none
      { work := .use .connect } { wire := 0 } _ (.handshake (.io "broken pipe")) rfl rfl
    cases hinner
    exact hdown.mp rfl
  · obtain ⟨inner, hinner, _, hagain⟩ := hopens fading { requestTimeout := 1 } .all none
      { work := .use .connect } { wire := 0 } _ _ rfl hsilent
    cases hinner
    exact (hagain rfl).2 0 (by decide) (by decide) (by decide)
  · obtain ⟨suite, hresults, hlast, _⟩ :=
      hsuites frailPlan frailRunner "s" [breaks, lists, breaks] hreached
    rw [results_of_runSuite] at hresults
    obtain rfl := List.singleton_inj.mp hresults
    obtain ⟨result, hresult, hsays⟩ : ∃ result,
        (runTests frailPlan [breaks, lists, breaks] frailRunner.session).results[1]? = some result ∧
          result.SaysFatal := ⟨_, rfl, _, rfl, rfl⟩
    have herrors : errorsOf frailPlan lists
        (sessionOf frailPlan [breaks, lists, breaks] frailRunner.session 1)
          = [.io "broken pipe"] := rfl
    refine (hlast 1 lists result rfl hresult hsays fun f e hend hcause => ?_).2
    cases hend
    cases hcause
    exact ⟨1, Nat.le_refl 1, lists, rfl, herrors ▸ List.mem_singleton_self _⟩
  · obtain ⟨suite, _, _, hwhole⟩ := hsuites frailPlan frailRunner "s" [breaks, breaks] hreached
    refine ⟨suite, (hwhole nofun fun i t _ ht => ?_).2⟩
    have hbreaks : t = breaks := by simpa using List.mem_of_getElem? ht
    subst hbreaks
    exact ⟨nofun, nofun, rfl⟩

end Runner

end Conformance
