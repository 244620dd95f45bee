/-
Conformance — a conforming server passes.

The demonstration server runs without a flag that makes it fail, and every answer comes while the
client waits for it.  Then no operation of the suites that list the tools and call them ends with an
error, and every test of them passes that has the time for its answers; that is all of them when
nine answers fit into the limit of a test.  It makes no difference what was asked of the server
before, which paths exist, which directory the tests are given, and how often and in which order the
suites run (`conforming_server_passes`).

That the client waits is not enough: answers that come in time for it, one by one, can come too late
for the test (`conforming_server_can_be_late`).

What is kept is `Room`: the server attends to the client, and ids and time suffice for the requests
that are still to come.  An operation of the history takes up one request of it, and a test its
price at most (`room_of_history`, `clean_of_served`).
-/
import Conformance.Proofs.Demo.Opening
import Conformance.Proofs.Run.Verdict
import Conformance.Proofs.Suite.Attended

namespace Conformance

open Board DemoServer Runner Application

/-- The session after acts one after the other, each after a rest. -/
def Session.after {σ : Type} (T : Transport σ) (o : ClientOptions) :
    List (Duration × Act) → Session σ → Session σ
  | [], s => s
  | (rest, a) :: more, s =>
      after T o more (gather T o .all none [{ work := a.work }] { s with now := s.now + rest }).1

/-- The number of tests of some suites. -/
def Suite.testCount (suites : List Suite) : Nat := (suites.map fun suite => suite.tests.length).sum

/-- What is on record of test `j` of suite `i`. -/
def Runner.resultAt {σ : Type} (r : Runner σ) (i j : Nat) : Option TestResult :=
  r.results[i]?.bind fun suite => suite.tests[j]?

namespace DemoServer

/-- A run of suites at a server. -/
def planAt (site : Site) (o : ClientOptions) (ro : RunnerOptions) (project : String) :
    RunPlan Hosted :=
  { transport := hosted site, client := o, runner := ro, project }

/-- There is room for `n` requests: for their ids, and on the clock for their answers and a wait. -/
structure Room (o : ClientOptions) (lag : Duration) (n : Nat) (s : Session Hosted) : Prop where
  orderly : Orderly lag s
  ids : s.conn.lastId + n < Word.bound
  clock : s.now + n * lag + o.requestTimeout < clockEnd

/-- No operation of the test ends with an error, and the test passes unless its limit comes first,
which needs more than its price in answers. -/
structure Clean (p : RunPlan Hosted) (lag : Duration) (t : TestCase) (s : Session Hosted) : Prop where
  errors : (t.body p.project).run.errors p.transport p.client (some (limitOf p s)) s = []
  ending : (runTest p t s).2.passed = true ∨ (runLimited p t s).2 = .dropped
  inTime : Suite.price * lag ≤ p.runner.testTimeout → (runTest p t s).2.passed = true

variable {site : Site} {o : ClientOptions} (ro : RunnerOptions) (project : String)
variable {least lag : Duration} {flags : Flags} {n : Nat} {s : Session Hosted}

/-! ## Before the suites -/

/-- The session is opened. -/
theorem start_of_fresh (ht : Timely site o least lag) (hflags : flags.Sound)
    (hclock : o.requestTimeout < clockEnd) :
    ∃ r, (Runner.start (planAt site o ro project) { wire := .fresh flags }).2 = .done (.ok r) ∧
      r.results = [] ∧ Orderly lag r.session ∧ r.session.now ≤ lag + ro.settle ∧
      r.session.conn.lastId = 1 := by
  obtain ⟨s', hrun, horderly, hnow, hlast⟩ := run_of_connect ht hflags hclock
  have hconnect : connect (hosted site) o { wire := .fresh flags } = (s', .done (.ok ())) := by
    rw [connect, Check.gather_of_sole hrun]
    rfl
  refine ⟨{ session := { s' with now := s'.now + ro.settle } }, ?_, rfl,
    orderly_of_later horderly (Nat.le_add_right _ _), Nat.add_le_add_right hnow _, hlast⟩
  rw [Runner.start, planAt, hconnect]

theorem clock_of_step {now next rest later n wait ahead last : Nat} (h : next ≤ now + rest + wait)
    (hclock : now + (rest + later) + (n + 1) * wait + ahead < last) :
    next + later + n * wait + ahead < last := by
  rw [Nat.succ_mul] at hclock
  omega

theorem clock_of_opening {now rest later waits ahead n lag last : Nat} (h : now ≤ lag + rest)
    (hclock : rest + later + waits + ((n + 1) * lag + ahead) < last) :
    now + later + waits + (n * lag + ahead) < last := by
  rw [Nat.succ_mul] at hclock
  omega

/-- A history leaves room for what it does not take up.  Nothing is said of what it asks for, so
each step of it may take up a whole wait. -/
theorem room_of_history (ht : Timely site o least lag) : ∀ {history : List (Duration × Act)}
    {s : Session Hosted}, (∀ step ∈ history, step.2.inquiry.isSome) → Orderly lag s →
      s.conn.lastId + (history.length + n) < Word.bound →
      s.now + Duration.total (history.map (·.1)) + history.length * o.requestTimeout
        + (n * lag + o.requestTimeout) < clockEnd →
      Room o lag n (s.after (hosted site) o history)
  | [], s, _, horderly, hids, hclock =>
      { orderly := horderly
        ids := by simpa [Session.after] using hids
        clock := by simpa [Session.after, Duration.total, Nat.add_assoc] using hclock }
  | (rest, a) :: more, s, hall, horderly, hids, hclock => by
      obtain ⟨q, hq⟩ := Option.isSome_iff_exists.mp (hall _ List.mem_cons_self)
      obtain ⟨hpurpose, op, hwork, hop⟩ := asks_of_inquiry hq o
      have hrested : Orderly lag { s with now := s.now + rest } :=
        orderly_of_later horderly (Nat.le_add_right _ _)
      rw [List.length_cons] at hclock hids
      have hnext := clock_of_step (Nat.le_refl (s.now + rest + o.requestTimeout)) hclock
      have hfits : s.now + rest + o.requestTimeout < clockEnd :=
        Nat.lt_of_le_of_lt (by omega) hnext
      obtain ⟨s', r, hrun, horderly', hnow, hlast⟩ := run_of_any ht hrested hop hpurpose hfits
      rw [Session.after, hwork, Check.gather_of_sole hrun]
      refine room_of_history ht (fun step hstep => hall step (List.mem_cons_of_mem _ hstep))
        horderly' ?_ (clock_of_step hnow hclock)
      rw [hlast]
      dsimp only
      omega

/-! ## Tests -/

/-- An attended server is there. -/
theorem isConnected_of_orderly (h : Orderly lag s) :
    isConnected (planAt site o ro project) s = (s, true) := by
  rw [isConnected_eq, planAt, look_of_orderly h]

theorem clock_of_test {now next price wait lag n last : Nat} (h : next ≤ now + price * lag)
    (hclock : now + (n + price) * lag + wait < last) : next + n * lag + wait < last := by
  rw [Nat.add_mul] at hclock
  omega

theorem room_of_one {n price count j : Nat} (hj : j < count) :
    n + price * (count - j) = n + price * (count - (j + 1)) + price := by
  rw [Nat.add_assoc, ← Nat.mul_succ, Nat.succ_eq_add_one]
  congr 2
  omega

theorem testCount_drop {suites : List Suite} {i : Nat} (hi : i < suites.length) :
    n + Suite.price * Suite.testCount (suites.drop i)
      = n + Suite.price * Suite.testCount (suites.drop (i + 1))
        + Suite.price * suites[i].tests.length := by
  rw [List.drop_eq_getElem_cons hi, Suite.testCount, List.map_cons, List.sum_cons, Nat.mul_add,
    Suite.testCount]
  omega

theorem ready_of_room {k : Nat} (hk : k ≤ Suite.price) (hs : Room o lag (n + Suite.price) s) :
    Program.Ready o lag k (some (limitOf (planAt site o ro project) s)) s where
  orderly := hs.orderly
  ids := Nat.lt_of_le_of_lt (Nat.add_le_add_left (Nat.le_trans hk (Nat.le_add_left _ n)) _) hs.ids
  clock := Nat.lt_of_le_of_lt (Nat.add_le_add_right (Nat.add_le_add_left (Nat.mul_le_mul_right lag
    (Nat.le_trans hk (Nat.le_add_left _ n))) s.now) _) hs.clock
  ahead d hd := by
    cases hd
    exact Nat.le_add_right _ _

/-- A test that is served is clean, and takes up its price. -/
theorem clean_of_served {t : TestCase}
    (hserved : ∃ k ≤ Suite.price, Check.Served site o least lag k (t.body project) fun _ => True)
    (hs : Room o lag (n + Suite.price) s) :
    Clean (planAt site o ro project) lag t s ∧
      Room o lag n (runTest (planAt site o ro project) t s).1 := by
  obtain ⟨k, hk, hserved⟩ := hserved
  have hprice : k * lag ≤ Suite.price * lag := Nat.mul_le_mul_right lag hk
  obtain ⟨herrors, hfares⟩ := hserved _ _ (ready_of_room ro project hk hs)
  have hnow := Nat.le_trans hfares.now (Nat.add_le_add_left hprice s.now)
  refine ⟨⟨herrors, ?_, fun hin => ?_⟩, hfares.orderly, ?_, clock_of_test hnow hs.clock⟩
  · rcases hfares.ending with ⟨_, he, ⟨⟨⟩, rfl, _⟩, _⟩ | ⟨he, _⟩
    · exact .inl (passed_resultOf_iff.mpr he)
    · exact .inr he
  · rcases hfares.ending with ⟨_, he, ⟨⟨⟩, rfl, _⟩, _⟩ | ⟨_, d, hd, hlate⟩
    · exact passed_resultOf_iff.mpr he
    · cases hd
      exact absurd (Nat.lt_of_lt_of_le hlate (Nat.add_le_add_left (Nat.le_trans hprice hin) s.now))
        (Nat.lt_irrefl _)
  · have hids := hs.ids
    exact Nat.lt_of_le_of_lt (Nat.add_le_add_right hfares.ids n) (by omega)

/-- A test fails whose answers take longer than its limit. -/
theorem fails_of_served {t : TestCase} {k : Nat} (hk : k ≤ Suite.price)
    (hserved : Check.Served site o least lag k (t.body project) fun _ => True)
    (hs : Room o lag (n + Suite.price) s) (hlate : ro.testTimeout < k * least) :
    (runTest (planAt site o ro project) t s).2.passed = false := by
  have hready : Program.Ready o lag k (some (limitOf (planAt site o ro project) s)) s :=
    ready_of_room ro project hk hs
  obtain ⟨_, hfares⟩ := hserved _ _ hready
  have hlimit := (Program.clock_of_program (T := hosted site) (o := o) _ (t.body project).run s
    hready.ahead).2 _ rfl
  refine Bool.eq_false_iff.mpr fun hpassed => ?_
  rcases hfares.ending with ⟨_, _, _, hleast⟩ | ⟨he, _⟩
  · have hin : s.now + k * least ≤ s.now + ro.testTimeout := Nat.le_trans hleast hlimit
    exact absurd (Nat.le_of_add_le_add_left hin) (Nat.not_le.mpr hlate)
  · exact nomatch he.symm.trans (passed_resultOf_iff.mp hpassed)

/-! ## Suites -/

section Suites

variable {suite : Suite} {suites : List Suite} {t : TestCase} {r : Runner Hosted} {i j : Nat}

/-- The tests of a suite take up their prices one after the other. -/
theorem room_of_sessionOf (hserved : suite.Served site o least lag)
    (hs : Room o lag (n + Suite.price * suite.tests.length) s) : ∀ {j}, j ≤ suite.tests.length →
      Room o lag (n + Suite.price * (suite.tests.length - j))
        (sessionOf (planAt site o ro project) suite.tests s j)
  | 0, _ => by
      rw [sessionOf_zero]
      exact hs
  | j + 1, hj => by
      have hroom := room_of_sessionOf hserved hs (Nat.le_of_succ_le hj)
      rw [room_of_one hj] at hroom
      have hnext := (clean_of_served ro project (hserved _ (List.getElem_mem hj) project) hroom).2
      rw [sessionOf_succ (List.getElem?_eq_getElem hj),
        isConnected_of_orderly ro project hnext.orderly]
      exact hnext

/-- Every test of a suite is clean, and the server is there after it. -/
theorem clean_of_suite (hserved : suite.Served site o least lag)
    (hs : Room o lag (n + Suite.price * suite.tests.length) s) (htest : suite.tests[j]? = some t) :
    Clean (planAt site o ro project) lag t (sessionOf (planAt site o ro project) suite.tests s j) ∧
      IsUp (planAt site o ro project)
        (runTest (planAt site o ro project) t
          (sessionOf (planAt site o ro project) suite.tests s j)).1 := by
  obtain ⟨hj, rfl⟩ := List.getElem?_eq_some_iff.mp htest
  have hroom := room_of_sessionOf ro project hserved hs (Nat.le_of_lt hj)
  rw [room_of_one hj] at hroom
  obtain ⟨hclean, hnext⟩ :=
    clean_of_served ro project (hserved _ (List.getElem_mem hj) project) hroom
  refine ⟨hclean, isConnected_iff.mp ?_⟩
  rw [isConnected_of_orderly ro project hnext.orderly]

theorem session_of_suite (hserved : suite.Served site o least lag)
    (hs : Room o lag (n + Suite.price * suite.tests.length) r.session) :
    (runSuite (planAt site o ro project) suite.title suite.tests r).1.session
      = sessionOf (planAt site o ro project) suite.tests r.session suite.tests.length := by
  have hups : ∀ j, UpAfter (planAt site o ro project) suite.tests r.session j :=
    fun j t htest => (clean_of_suite ro project hserved hs htest).2
  have hc := course_of_runTests (planAt site o ro project) suite.tests r.session
  rw [session_of_runSuite, hc.session, (hc.all (names_of_up hups).1).1]

/-- Suites take up the prices of their tests one after the other. -/
theorem room_of_runnerOf (hserved : ∀ suite ∈ suites, suite.Served site o least lag)
    (hs : Room o lag (n + Suite.price * Suite.testCount suites) r.session) :
    ∀ {i}, i ≤ suites.length →
      Room o lag (n + Suite.price * Suite.testCount (suites.drop i))
        (runnerOf (planAt site o ro project) suites r i).session
  | 0, _ => by
      rw [runnerOf_zero]
      exact hs
  | i + 1, hi => by
      have hroom := room_of_runnerOf hserved hs (Nat.le_of_succ_le hi)
      have hsuite : suites[i] ∈ suites := List.getElem_mem hi
      rw [testCount_drop hi] at hroom
      rw [runnerOf_succ (List.getElem?_eq_getElem hi),
        session_of_suite ro project (hserved _ hsuite) hroom]
      have hrest := room_of_sessionOf ro project (hserved _ hsuite) hroom
        (Nat.le_refl _)
      rwa [Nat.sub_self] at hrest

/-- Every test of every suite is clean, and the server is there after it. -/
theorem clean_of_suites (hserved : ∀ suite ∈ suites, suite.Served site o least lag)
    (hs : Room o lag (n + Suite.price * Suite.testCount suites) r.session)
    (hsuite : suites[i]? = some suite) (htest : suite.tests[j]? = some t) :
    let p := planAt site o ro project
    let start := sessionOf p suite.tests (runnerOf p suites r i).session j
    Clean p lag t start ∧ IsUp p (runTest p t start).1 := by
  obtain ⟨hi, rfl⟩ := List.getElem?_eq_some_iff.mp hsuite
  have hroom := room_of_runnerOf ro project hserved hs (Nat.le_of_lt hi)
  rw [testCount_drop hi] at hroom
  exact clean_of_suite ro project (hserved _ (List.getElem_mem hi)) hroom htest

end Suites

end DemoServer

/-! ## The record -/

/-- While the server is there after every test, all of them are on record. -/
theorem record_of_up {σ : Type} {p : RunPlan σ} {suites : List Suite} {r : Runner σ}
    (hnone : r.results = []) (hup : ∀ i, StaysUp p suites r i) :
    (runSuites p suites r).2 = none ∧
      ∀ i suite j t, suites[i]? = some suite → suite.tests[j]? = some t →
        (runSuites p suites r).1.resultAt i j
          = some (runTest p t (sessionOf p suite.tests (runnerOf p suites r i).session j)).2 := by
  obtain ⟨records, htour⟩ := tour_of_runSuites p suites r
  have hlost : (runSuites p suites r).2 = none := by
    cases hlost : (runSuites p suites r).2 with
    | none => rfl
    | some e =>
        obtain ⟨i, suite, j, t, _, hat, _⟩ := htour.lost e hlost
        exact absurd (hup i suite hat.started j) hat.down
  refine ⟨hlost, fun i suite j t hsuite htest => ?_⟩
  have hi : i < records.length := by
    rw [(htour.all hlost).1]
    exact (List.getElem?_eq_some_iff.mp hsuite).1
  obtain ⟨suite', hsuite', hrecord⟩ := htour.record i _ (List.getElem?_eq_getElem hi)
  cases hsuite.symm.trans hsuite'
  have hc := course_of_runTests p suite.tests (runnerOf p suites r i).session
  have hj : j < (runTests p suite.tests (runnerOf p suites r i).session).results.length := by
    rw [(hc.all (names_of_up (hup i suite hsuite)).1).1]
    exact (List.getElem?_eq_some_iff.mp htest).1
  obtain ⟨t', htest', hresult⟩ := hc.results j _ (List.getElem?_eq_getElem hj)
  cases htest.symm.trans htest'
  rw [resultAt, htour.results, hnone, List.nil_append, List.getElem?_eq_getElem hi, hrecord, Option.bind_some,
    recordOf, List.getElem?_eq_getElem hj, hresult]

/-! ## The result -/

open Suite in
/-- A client opens a session with the demonstration server, which no flag makes fail, and every
answer comes within a lag that is shorter than the client waits.  The session is used for a while;
then suites run, each of them smoke, edge cases or battle prep.  If ids and clock suffice, the suites
run to their end, all of their tests are on record, no operation of a test ends with an error, and
every test passes unless its limit drops it; none is dropped if nine lags fit into the limit. -/
theorem conforming_server_passes {site : Site} {flags : Flags} {o : ClientOptions}
    {ro : RunnerOptions} {project : String} {lag : Duration} {history : List (Duration × Act)}
    {suites : List Suite} (hflags : flags.Sound) (hlag : ∀ heard, site.lag heard ≤ lag)
    (hwaits : lag < o.requestTimeout) (hhistory : ∀ step ∈ history, step.2.inquiry.isSome)
    (hsuites : ∀ suite ∈ suites,
      suite = Smoke.suite ∨ suite = EdgeCases.suite ∨ suite = BattlePrep.suite)
    (hids : 1 + (history.length + price * testCount suites) < Word.bound)
    (hclock : ro.settle + Duration.total (history.map (·.1)) + history.length * o.requestTimeout
      + ((price * testCount suites + 1) * lag + o.requestTimeout) < clockEnd) :
    let p := planAt site o ro project
    ∃ r, (Runner.start p { wire := .fresh flags }).2 = .done (.ok r) ∧
      let used := { r with session := r.session.after p.transport o history }
      (runSuites p suites used).2 = none ∧
      ∀ i suite j t, suites[i]? = some suite → suite.tests[j]? = some t →
        let s := sessionOf p suite.tests (runnerOf p suites used i).session j
        let result := (runTest p t s).2
        (runSuites p suites used).1.resultAt i j = some result ∧
        (t.body project).run.errors p.transport o (some (limitOf p s)) s = [] ∧
        (result.passed = true ∨ (runLimited p t s).2 = .dropped) ∧
        (price * lag ≤ ro.testTimeout → result.passed = true) := by
  intro p
  have ht : Timely site o 0 lag := ⟨fun _ => Nat.zero_le _, hlag, hwaits⟩
  have hserved : ∀ suite ∈ suites, suite.Served site o 0 lag := by
    intro suite hsuite
    rcases hsuites suite hsuite with rfl | rfl | rfl
    · exact Smoke.served ht
    · exact EdgeCases.served ht
    · exact BattlePrep.served ht
  have hopen : o.requestTimeout < clockEnd := Nat.lt_of_le_of_lt
    (Nat.le_trans (Nat.le_add_left _ _) (Nat.le_add_left _ _)) hclock
  obtain ⟨r, hstart, hresults, horderly, hnow, hlast⟩ :=
    start_of_fresh ro project ht hflags hopen
  refine ⟨r, hstart, ?_⟩
  intro used
  have hroom : Room o lag (0 + price * testCount suites) used.session := by
    rw [Nat.zero_add]
    exact room_of_history ht hhistory horderly (by rw [hlast]; exact hids)
      (clock_of_opening hnow hclock)
  have hclean : ∀ i suite j t, suites[i]? = some suite → suite.tests[j]? = some t →
      let s := sessionOf p suite.tests (runnerOf p suites used i).session j
      Clean p lag t s ∧ IsUp p (runTest p t s).1 :=
    fun i suite j t hsuite htest => clean_of_suites ro project hserved hroom hsuite htest
  obtain ⟨hnone, hrecord⟩ := record_of_up (p := p) (r := used) hresults
    fun i suite hsuite j t htest => (hclean i suite j t hsuite htest).2
  refine ⟨hnone, fun i suite j t hsuite htest => ?_⟩
  obtain ⟨hclean, _⟩ := hclean i suite j t hsuite htest
  exact ⟨hrecord i suite j t hsuite htest, hclean.errors, hclean.ending, hclean.inTime⟩

/-- A directory with an odd name. -/
def oddProject : String := "/srv/\"app\"\n"

/-- A server in that directory whose answers take so many seconds. -/
def oddSite (seconds : Nat) : Site where
  isThere path := path = oddProject
  lag _ := Duration.ofSecs seconds
  complaints := id

/-- The directory is scanned, and later the tools are listed. -/
def scannedBefore : List (Duration × Act) :=
  [(0, .callTool "scan_dependencies" (Suite.projectArgument oddProject)),
    (Duration.ofSecs 5, .listTools)]

open Suite in
/-- A chatty server with answers that take two seconds, which was used before. -/
theorem conforming_server_passes_when_used_before :
    let p := planAt (oddSite 2) {} {} oddProject
    let suites : List Suite := [BattlePrep.suite, Smoke.suite, EdgeCases.suite, Smoke.suite]
    ∃ r, (Runner.start p { wire := .fresh { notify := true, stderr := true } }).2 = .done (.ok r) ∧
      let used := { r with session := r.session.after p.transport {} scannedBefore }
      (runSuites p suites used).2 = none ∧
      ∀ i (suite : Suite) j t, suites[i]? = some suite → suite.tests[j]? = some t →
        ∃ result, (runSuites p suites used).1.resultAt i j = some result ∧
          result.passed = true := by
  intro p suites
  obtain ⟨r, hstart, hnone, hall⟩ := @conforming_server_passes (oddSite 2)
    { notify := true, stderr := true } {} {} oddProject (Duration.ofSecs 2) scannedBefore suites
    ⟨rfl, rfl, rfl, rfl, rfl⟩ (fun _ => Nat.le_refl _) (by decide) (by decide)
    (by simp [suites]) (by decide) (by decide)
  refine ⟨r, hstart, hnone, fun i suite j t hsuite htest => ?_⟩
  obtain ⟨hrecord, _, _, hpassed⟩ := hall i suite j t hsuite htest
  exact ⟨_, hrecord, hpassed (by decide)⟩

open Suite in
/-- Nine answers that take twenty seconds each are in time for the client, and too late for the
test. -/
theorem conforming_server_can_be_late :
    let p := planAt (oddSite 20) {} {} oddProject
    (∀ heard, (oddSite 20).lag heard < p.client.requestTimeout) ∧
    ∃ r, (Runner.start p { wire := .fresh {} }).2 = .done (.ok r) ∧
      ∃ result, (runSuites p [BattlePrep.suite] r).1.resultAt 0 8 = some result ∧
        result.name = "primitive_type_names" ∧ result.passed = false := by
  intro p
  have ht : Timely (oddSite 20) {} (Duration.ofSecs 20) (Duration.ofSecs 20) :=
    ⟨fun _ => Nat.le_refl _, fun _ => Nat.le_refl _, by decide⟩
  have hserved : ∀ suite ∈ [BattlePrep.suite],
      suite.Served (oddSite 20) {} (Duration.ofSecs 20) (Duration.ofSecs 20) := fun suite hsuite =>
    List.mem_singleton.mp hsuite ▸ BattlePrep.served ht
  obtain ⟨r, hstart, hresults, horderly, hnow, hlast⟩ :=
    @start_of_fresh (oddSite 20) {} {} oddProject _ _ {} ht ⟨rfl, rfl, rfl, rfl, rfl⟩ (by decide)
  have hroom : Room {} (Duration.ofSecs 20) (0 + price * testCount [BattlePrep.suite]) r.session :=
    { orderly := horderly
      ids := by
        rw [hlast]
        decide
      clock := Nat.lt_of_le_of_lt (Nat.add_le_add_right (Nat.add_le_add_right hnow _) _)
        (by decide) }
  obtain ⟨_, hrecord⟩ := record_of_up (p := p) (r := r) hresults fun i suite hsuite j t htest =>
    (clean_of_suites {} oddProject hserved hroom hsuite htest).2
  refine ⟨fun _ => (by decide : Duration.ofSecs 20 < Duration.ofSecs 30), r, hstart, _,
    hrecord 0 BattlePrep.suite 8 _ rfl rfl, (judged_of_test p _ _).name, ?_⟩
  have hsuite := room_of_sessionOf {} oddProject (BattlePrep.served ht) hroom
    (show 8 ≤ BattlePrep.suite.tests.length by decide)
  rw [runnerOf_zero]
  exact fails_of_served {} oddProject (by decide) (BattlePrep.served_lookups ht _ _ _ oddProject)
    hsuite (by decide)

end Conformance
