/-
Conformance — what a summary says of the suites.

A summary is a picture of the suites it was made of (`summary_projects`): its totals are the
sums of theirs, in any order of the suites, its text has one line for each of them with its own
counts, and five things are the same: no test failed, every suite passed, the exit status is
`0`, every line of the text has the mark of a success, and the text does not close with a count
of failures.

The sum of the durations is carried out in words.  It is exact, and it fails just when it
reaches `2^64` seconds, however many nanoseconds were carried on the way (`Duration.sum_eq_ite`).
-/
import Conformance.Report.Summary
import Mathlib.Algebra.Ring.Nat
import Mathlib.Tactic.TFAE

namespace Conformance

namespace Duration

/-! ## The sum in words -/

namespace Tally

/-- What a sum under way has come to: `n`, or more than the seconds of a word. -/
def Reaches (n : Nat) : Option Tally → Prop
  | some t => t.value = n
  | none => Word.bound * 1000000000 ≤ n

theorem Reaches.bind {n m : Nat} {o : Option Tally} {f : Tally → Option Tally}
    (h : Reaches n o) (hf : ∀ t, Reaches (t.value + m) (f t)) : Reaches (n + m) (o.bind f) := by
  cases o with
  | none => exact Nat.le_add_right_of_le h
  | some t => exact h ▸ hf t

theorem reaches_addSecs (t : Tally) (secs : Nat) :
    Reaches (t.value + secs * 1000000000) (t.addSecs secs) := by
  rw [addSecs]
  split <;> simp only [Reaches, value] <;> omega

theorem reaches_carry (t : Tally) : Reaches t.value t.carry := by
  have hsplit : value { t with nanos := t.nanos % 1000000000 } + t.nanos / 1000000000 * 1000000000
      = t.value := by
    simp only [value]
    omega
  exact hsplit ▸ reaches_addSecs _ _

theorem reaches_addNanos (t : Tally) (nanos : Nat) :
    Reaches (t.value + nanos) (t.addNanos nanos) := by
  rw [addNanos]
  split
  · exact (Nat.add_assoc _ _ _).symm
  · rw [Option.map_eq_bind]
    exact t.reaches_carry.bind fun c => (Nat.add_assoc _ _ _).symm

theorem reaches_add (t : Tally) (d : Nat) : Reaches (t.value + d) (t.add d) := by
  have h := (t.reaches_addSecs (d / 1000000000)).bind fun u => u.reaches_addNanos (d % 1000000000)
  rw [Nat.add_assoc, Nat.div_add_mod'] at h
  exact h

theorem reaches_foldlM (ds : List Duration) : ∀ t : Tally,
    Reaches (t.value + total ds) (ds.foldlM add t) := by
  induction ds with
  | nil => exact fun t => (Nat.add_zero t.value).symm
  | cons d rest ih =>
      intro t
      have h := (t.reaches_add d).bind ih
      rwa [Nat.add_assoc] at h

/-- What was carried fits: whole seconds in a word, and less than a second beside them. -/
theorem value_lt_of_carry {t c : Tally} (h : t.carry = some c) :
    c.value < Word.bound * 1000000000 := by
  rw [carry, addSecs] at h
  split at h
  · next hroom =>
      cases h
      have hmod := Nat.mod_lt t.nanos (show 1000000000 > 0 by decide)
      dsimp only [value] at hroom ⊢
      omega
  · exact nomatch h

end Tally

/-- Carrying loses nothing: the sum in words is the sum, as long as that is less than `2^64`
seconds. -/
theorem sum_eq_ite (ds : List Duration) :
    sum? ds = if total ds < ofSecs Word.bound then some (total ds) else none := by
  have hreaches : Tally.Reaches (total ds) ((ds.foldlM Tally.add {}).bind Tally.carry) := by
    have hstart := Tally.reaches_foldlM ds {}
    rw [show ({} : Tally).value = 0 from rfl, Nat.zero_add] at hstart
    rw [← Nat.add_zero (total ds)]
    exact hstart.bind fun t => t.value.add_zero.symm ▸ t.reaches_carry
  rw [sum?, ofSecs]
  cases hsum : (ds.foldlM Tally.add {}).bind Tally.carry with
  | none =>
      rw [hsum] at hreaches
      exact (if_neg (Nat.not_lt.mpr hreaches)).symm
  | some c =>
      rw [hsum] at hreaches
      obtain ⟨_, _, hcarry⟩ := Option.bind_eq_some_iff.mp hsum
      have hlt := Tally.value_lt_of_carry hcarry
      rw [show c.value = total ds from hreaches] at hlt
      rw [if_pos hlt, Option.map_some, show c.value = total ds from hreaches]

/-- Nanoseconds make up the last second that is too much. -/
example : sum? [ofSecs 18446744073709551614, 1999999999] = some 18446744073709551615999999999 ∧
    sum? [ofSecs 18446744073709551614, 1999999999, 1] = none := by decide

end Duration

namespace SuiteResult

/-- A suite fails with any of its tests. -/
theorem failedCount_eq_zero_iff {s : SuiteResult} :
    s.failedCount = 0 ↔ ∀ t ∈ s.tests, t.passed = true := by
  have hle : s.passedCount ≤ s.tests.length := List.countP_le_length
  have hall : s.passedCount = s.tests.length ↔ ∀ t ∈ s.tests, t.passed = true :=
    List.countP_eq_length
  rw [failedCount, ← hall]
  omega

theorem passedCount_add_failedCount (s : SuiteResult) :
    s.passedCount + s.failedCount = s.tests.length :=
  Nat.add_sub_cancel' List.countP_le_length

/-- The counts of a suite are equal just when it passed. -/
theorem passed_eq_beq (s : SuiteResult) : s.passed = (s.passedCount == s.tests.length) := by
  have hboth := s.passedCount_add_failedCount
  rw [passed, Bool.eq_iff_iff, beq_iff_eq, beq_iff_eq]
  omega

end SuiteResult

namespace Summary

variable {results : List SuiteResult} {summary : Summary}

/-! ## Totals -/

theorem count_eq_sum (f : SuiteResult → Nat) (results : List SuiteResult) :
    count f results = (results.map f).sum :=
  List.foldr_map.symm

theorem count_eq_zero_iff {f : SuiteResult → Nat} {results : List SuiteResult} :
    count f results = 0 ↔ ∀ s ∈ results, f s = 0 := by
  rw [count_eq_sum, List.sum_eq_zero_iff_forall_eq_nat, List.forall_mem_map]

theorem count_perm {f : SuiteResult → Nat} {results other : List SuiteResult}
    (h : results.Perm other) : count f results = count f other := by
  rw [count_eq_sum, count_eq_sum]
  exact (h.map f).sum_nat

/-- All that a summary holds, and when there is none. -/
theorem of_eq_ite (results : List SuiteResult) :
    of? results =
      if Duration.total (results.map SuiteResult.duration) < durationLimit then
        some { suites := results.map line
               totalPassed := count SuiteResult.passedCount results
               totalFailed := count SuiteResult.failedCount results
               totalDuration := Duration.total (results.map SuiteResult.duration) }
      else none := by
  rw [of?, Duration.sum_eq_ite, apply_ite (Option.map _)]
  rfl

theorem of_eq_some (h : of? results = some summary) :
    summary.suites = results.map line ∧ summary.totalPassed = count SuiteResult.passedCount results ∧
      summary.totalFailed = count SuiteResult.failedCount results ∧
      summary.totalDuration = Duration.total (results.map SuiteResult.duration) := by
  rw [of_eq_ite] at h
  split at h
  · cases h
    exact ⟨rfl, rfl, rfl, rfl⟩
  · exact nomatch h

/-- A summary is that of a success when every test of every suite passed. -/
theorem passed_iff (h : of? results = some summary) :
    summary.passed = true ↔ ∀ s ∈ results, ∀ t ∈ s.tests, t.passed = true := by
  rw [passed, beq_iff_eq, (of_eq_some h).2.2.1, count_eq_zero_iff]
  simp only [SuiteResult.failedCount_eq_zero_iff]

/-- Every test on record is in the totals. -/
theorem total_tests (h : of? results = some summary) :
    summary.totalPassed + summary.totalFailed = (results.map (·.tests.length)).sum := by
  have hcounts : ∀ results : List SuiteResult, count SuiteResult.passedCount results
      + count SuiteResult.failedCount results = (results.map (·.tests.length)).sum := by
    intro results
    induction results with
    | nil => rfl
    | cons s rest ih =>
        rw [List.map_cons, List.sum_cons, ← ih, ← s.passedCount_add_failedCount]
        exact Nat.add_add_add_comm _ _ _ _
  rw [(of_eq_some h).2.1, (of_eq_some h).2.2.1, hcounts]

/-! ## Text -/

/-- The line of a suite under a mark. -/
def markedLine (good : Bool) (s : SuiteResult) : String :=
  mark good ++ (" " ++ s.name ++ ": " ++ toString s.passedCount ++ "/" ++ toString s.tests.length
    ++ " passed (" ++ Duration.fixedSeconds 2 s.duration ++ "s)\n")

/-- A report on suites: a line for each of them, in order, each under one of the marks, the
totals of all, and what closes it. -/
structure Reports (results : List SuiteResult) (marks : List Bool) (closing text : String) :
    Prop where
  whole : marks.length = results.length
  text_eq : text =
    "\n" ++ rule ++ "\nTEST SUMMARY\n" ++ rule ++ "\n"
      ++ String.join (List.zipWith markedLine marks results)
      ++ ("\nTotal: " ++ toString (results.map SuiteResult.passedCount).sum
        ++ "/" ++ toString (results.map (·.tests.length)).sum ++ " tests passed\n"
        ++ "Total Duration: "
        ++ Duration.fixedSeconds 2 (Duration.total (results.map SuiteResult.duration)) ++ "s\n")
      ++ closing

/-- What closes the text of a summary. -/
def closing (s : Summary) : String :=
  if s.totalFailed > 0 then "\n" ++ toString s.totalFailed ++ " tests FAILED!\n" else ""

theorem closing_eq_empty_iff (s : Summary) : s.closing = "" ↔ s.totalFailed = 0 := by
  rw [closing]
  split
  · next hfailed => exact iff_of_false (by simp) (Nat.ne_of_gt hfailed)
  · next hnone => exact iff_of_true rfl (Nat.eq_zero_of_not_pos hnone)

theorem lineText_line (s : SuiteResult) : lineText (line s) = markedLine s.passed s := by
  simp only [lineText, line, markedLine, s.passed_eq_beq, String.append_assoc]

theorem render_reports (h : of? results = some summary) :
    Reports results (results.map SuiteResult.passed) summary.closing summary.render := by
  have hlines : summary.suites.map lineText
      = List.zipWith markedLine (results.map SuiteResult.passed) results := by
    rw [(of_eq_some h).1, List.map_map, List.zipWith_map_left, List.zipWith_self]
    exact List.map_congr_left fun s _ => lineText_line s
  refine ⟨List.length_map _, ?_⟩
  rw [← count_eq_sum, ← (of_eq_some h).2.1, ← total_tests h, ← (of_eq_some h).2.2.2, ← hlines]
  unfold render closing
  simp only [String.append_assoc]

/-- A mark is one character, so that what comes after the line can be told from it. -/
theorem markedLine_append {a b : Bool} {s : SuiteResult} {t u : String}
    (h : markedLine a s ++ t = markedLine b s ++ u) : a = b ∧ t = u := by
  simp only [markedLine, String.append_assoc] at h
  have hmark : a = b := by
    have hfirst := congrArg (fun text => text.toList.head?) h
    cases a <;> cases b <;> first | rfl | simp [mark, String.toList_append] at hfirst
  subst hmark
  simpa only [String.append_right_inj, true_and] using h

theorem join_markedLine_append {t u : String} : ∀ {results : List SuiteResult} {a b : List Bool},
    a.length = results.length → b.length = results.length →
      String.join (List.zipWith markedLine a results) ++ t
        = String.join (List.zipWith markedLine b results) ++ u → a = b ∧ t = u
  | [], [], [], _, _, h => ⟨rfl, by simpa using h⟩
  | _ :: _, [], _, ha, _, _ => nomatch ha
  | _ :: _, _ :: _, [], _, hb, _ => nomatch hb
  | _ :: _, _ :: _, _ :: _, ha, hb, h => by
      simp only [List.zipWith_cons_cons, String.join_cons, String.append_assoc] at h
      obtain ⟨rfl, hrest⟩ := markedLine_append h
      obtain ⟨rfl, htail⟩ :=
        join_markedLine_append (Nat.succ.inj ha) (Nat.succ.inj hb) hrest
      exact ⟨rfl, htail⟩

/-- The marks and the closing can be read off the text. -/
theorem Reports.unique {a b : List Bool} {c d text : String} (h : Reports results a c text)
    (h' : Reports results b d text) : a = b ∧ c = d := by
  have htext := h.text_eq.symm.trans h'.text_eq
  simp only [String.append_assoc, String.append_right_inj] at htext
  obtain ⟨hmarks, hrest⟩ := join_markedLine_append h.whole h'.whole htext
  exact ⟨hmarks, by simpa only [String.append_right_inj] using hrest⟩

/-- There is a summary unless the durations sum up to `2^64` seconds or more, and the totals are
the same in whatever order the suites come.  All recorded tests are in the totals, and the
durations add up exactly.  The text is a report on the suites, from which the marks and the
closing can be read in one way only, and that all tests passed can be told by any of: the total
of failures, the suites, the exit status, the marks and the closing. -/
theorem summary_projects (results : List SuiteResult) :
    (of? results = none ↔
      Duration.ofSecs (2 ^ 64) ≤ (results.map SuiteResult.duration).sum) ∧
    (∀ other, results.Perm other →
      (of? results).map (fun s => (s.totalPassed, s.totalFailed, s.totalDuration))
        = (of? other).map fun s => (s.totalPassed, s.totalFailed, s.totalDuration)) ∧
    ∀ summary, of? results = some summary →
      summary.totalPassed + summary.totalFailed = (results.map (·.tests.length)).sum ∧
      summary.totalDuration = (results.map SuiteResult.duration).sum ∧
      ∃ marks closing, Reports results marks closing summary.render ∧
        (∀ marks' closing', Reports results marks' closing' summary.render →
          marks' = marks ∧ closing' = closing) ∧
        (closing = "" ∨ closing = "\n" ++ toString summary.totalFailed ++ " tests FAILED!\n") ∧
        [summary.totalFailed = 0, ∀ r ∈ results, r.passed = true, summary.exitCode = 0,
          ∀ m ∈ marks, m = true, closing = ""].TFAE := by
  refine ⟨?_, fun other hperm => ?_, fun summary h => ?_⟩
  · rw [of_eq_ite]
    split
    · next hlt => exact iff_of_false nofun (Nat.not_le.mpr hlt)
    · next hge => exact iff_of_true rfl (Nat.not_lt.mp hge)
  · have htotal : Duration.total (results.map SuiteResult.duration)
        = Duration.total (other.map SuiteResult.duration) := (hperm.map _).sum_nat
    rw [of_eq_ite, of_eq_ite, htotal, count_perm hperm, count_perm hperm]
    split <;> rfl
  · refine ⟨total_tests h, (of_eq_some h).2.2.2, results.map SuiteResult.passed, summary.closing,
      render_reports h, fun _ _ h' => h'.unique (render_reports h), ?_, ?_⟩
    · rw [closing]
      split
      · exact .inr rfl
      · exact .inl rfl
    · have hsuites : summary.totalFailed = 0 ↔ ∀ r ∈ results, r.passed = true := by
        rw [(of_eq_some h).2.2.1, count_eq_zero_iff]
        simp only [SuiteResult.passed, beq_iff_eq]
      have hexit : summary.totalFailed = 0 ↔ summary.exitCode = 0 := by
        rw [exitCode, passed]
        split
        · next hzero => exact iff_of_true (beq_iff_eq.mp hzero) rfl
        · next hsome => exact iff_of_false (fun hzero => hsome (beq_iff_eq.mpr hzero)) nofun
      have hmarks : (∀ m ∈ results.map SuiteResult.passed, m = true)
          ↔ ∀ r ∈ results, r.passed = true := List.forall_mem_map
      have hclosing := summary.closing_eq_empty_iff
      tfae_have 1 ↔ 2 := hsuites
      tfae_have 1 ↔ 3 := hexit
      tfae_have 4 ↔ 2 := hmarks
      tfae_have 5 ↔ 1 := hclosing
      tfae_finish

/-- Two suites, the second with a test that failed without a message. -/
def mixedResults : List SuiteResult :=
  [{ name := "Smoke Tests"
     tests := [.pass "ping" 300000000, .pass "list_tools" 900000000]
     duration := 1999999999 },
   { name := "Edge Cases"
     tests := [.pass "empty_name" 1, .fail "long_name" 2 "" none]
     duration := 1 }]

/-- One failure in four tests: the second suite has its mark, and the closing its count. -/
theorem summary_projects_of_mixed : ∃ summary marks, of? mixedResults = some summary ∧
    summary.totalPassed + summary.totalFailed = 4 ∧ summary.totalDuration = Duration.ofSecs 2 ∧
    summary.exitCode ≠ 0 ∧ (∃ m ∈ marks, m ≠ true) ∧
    Reports mixedResults marks ("\n" ++ toString 1 ++ " tests FAILED!\n") summary.render := by
  obtain ⟨hnone, -, hsome⟩ := summary_projects mixedResults
  cases h : of? mixedResults with
  | none => exact absurd (hnone.mp h) (by decide)
  | some summary =>
      obtain ⟨htests, hduration, marks, closing, hreports, -, hclosing, hall⟩ := hsome summary h
      have hfailed : summary.totalFailed = 1 := (of_eq_some h).2.2.1
      have hone : summary.totalFailed ≠ 0 := hfailed ▸ Nat.one_ne_zero
      have hexit : summary.exitCode ≠ 0 := fun hzero => hone ((hall.out 0 2).mpr hzero)
      have hmarks : ¬ ∀ m ∈ marks, m = true := fun hgood => hone ((hall.out 0 3).mpr hgood)
      have htext : closing = "\n" ++ toString 1 ++ " tests FAILED!\n" :=
        hfailed ▸ hclosing.resolve_left fun hempty => hone ((hall.out 0 4).mpr hempty)
      exact ⟨summary, marks, rfl, htests, hduration, hexit, by simpa using hmarks,
        htext ▸ hreports⟩

end Summary

end Conformance
