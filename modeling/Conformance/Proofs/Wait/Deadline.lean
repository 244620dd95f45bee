/-
Conformance — the wait against its reference.

The reference is one sentence: of the items that come in time, the first that
decides gives the verdict, and if none does, the wait ends at its deadline with
the whole length of time in the report.  `Closes` says when an item is that
one, and `await_reference` that the wait finds it.  Silent items move nothing,
however many there are; what comes behind the deadline is never looked at, so
a stream without end is as good as its items up to the deadline.

In time has two edges.  An item that comes at the very instant of the deadline
is still read, if the wait had not got there before it.  A wait of no length
reads nothing at all, not even what has been lying there.  Both are what
`deadline_edges` shows: the sentence with "strictly before the deadline" in it
is not what the wait does.
-/
import Conformance.Proofs.Wait.Judgement

namespace Conformance

/-- `a`, behind the items `pre`, ends the wait of request `id` that starts at
`start` and lasts `limit`, with verdict `v`. -/
structure Closes (id : Nat) (abandoned : Option Nat) (limit : Duration) (start : Instant)
    (pre : List Arrival) (a : Arrival) (v : Verdict) : Prop where
  positive : 0 < limit
  silent : ∀ b ∈ pre, Silent id abandoned b.item
  early : ∀ b ∈ pre, b.time < start + limit
  inTime : a.time ≤ start + limit
  decides : Decides id abandoned limit a.item v

/-- A wait ends with what an item decides, or with its own timeout. -/
theorem await_verdict (id : Nat) (abandoned : Option Nat) (limit : Duration)
    (deadline now : Instant) (arrivals : List Arrival) :
    (await id abandoned limit deadline now arrivals).verdict = .refuse (.readTimeout limit) ∨
      ∃ item, judge id abandoned limit item
        = some (await id abandoned limit deadline now arrivals).verdict := by
  induction arrivals generalizing now with
  | nil => exact .inl rfl
  | cons a rest ih =>
      rw [await]
      split
      · exact .inl rfl
      · split
        · exact .inl rfl
        · cases hj : judge id abandoned limit a.item with
          | none => exact ih _
          | some v => exact .inr ⟨a.item, hj⟩

/-- The instant at which a wait has read `pre`. -/
def latest (now : Instant) (pre : List Arrival) : Instant :=
  pre.foldl (fun t b => max t b.time) now

theorem latest_lt {now deadline : Instant} {pre : List Arrival} (hnow : now < deadline)
    (hpre : ∀ b ∈ pre, b.time < deadline) : latest now pre < deadline := by
  induction pre generalizing now with
  | nil => exact hnow
  | cons b rest ih =>
      exact ih (max_lt hnow (hpre b List.mem_cons_self))
        (fun c hc => hpre c (List.mem_cons_of_mem _ hc))

/-- Behind items that came no later, an item is read when it would be read first. -/
theorem max_latest {now t : Instant} {pre : List Arrival} (hpre : ∀ b ∈ pre, b.time ≤ t) :
    max (latest now pre) t = max now t := by
  induction pre generalizing now with
  | nil => rfl
  | cons b rest ih =>
      have hb : b.time ≤ t := hpre b List.mem_cons_self
      calc max (latest (max now b.time) rest) t
          = max (max now b.time) t := ih fun c hc => hpre c (List.mem_cons_of_mem _ hc)
        _ = max now t := by rw [max_assoc, max_eq_right hb]

section Wait

variable {id : Nat} {abandoned : Option Nat} {limit : Duration} {deadline now : Instant}

/-! ## One item -/

theorem await_cons_silent {a : Arrival} {rest : List Arrival} (hnow : now < deadline)
    (ht : a.time ≤ deadline) (hs : Silent id abandoned a.item) :
    await id abandoned limit deadline now (a :: rest) =
      let w := await id abandoned limit deadline (max now a.time) rest
      { w with taken := w.taken + 1 } := by
  rw [await, if_neg (Nat.not_le.mpr hnow), if_neg (Nat.not_lt.mpr ht), judge_of_silent hs]

theorem await_cons_decides {a : Arrival} {rest : List Arrival} {v : Verdict}
    (hnow : now < deadline) (ht : a.time ≤ deadline) (hd : Decides id abandoned limit a.item v) :
    await id abandoned limit deadline now (a :: rest) =
      { ends := max now a.time, taken := 1, verdict := v } := by
  rw [await, if_neg (Nat.not_le.mpr hnow), if_neg (Nat.not_lt.mpr ht), judge_of_decides hd]

/-! ## Many items -/

/-- Silent items before the deadline are passed over; nothing of the deadline moves. -/
theorem await_append_silent {pre rest : List Arrival} (hnow : now < deadline)
    (hsilent : ∀ b ∈ pre, Silent id abandoned b.item) (hearly : ∀ b ∈ pre, b.time < deadline) :
    await id abandoned limit deadline now (pre ++ rest) =
      let w := await id abandoned limit deadline (latest now pre) rest
      { w with taken := pre.length + w.taken } := by
  induction pre generalizing now with
  | nil => simp [latest]
  | cons b pre ih =>
      have hb : b.time < deadline := hearly b List.mem_cons_self
      rw [List.cons_append, await_cons_silent hnow (Nat.le_of_lt hb)
        (hsilent b List.mem_cons_self),
        ih (max_lt hnow hb) (fun c hc => hsilent c (List.mem_cons_of_mem _ hc))
          (fun c hc => hearly c (List.mem_cons_of_mem _ hc))]
      simp [latest, Nat.add_right_comm]

/-- A wait that no item closes runs into its deadline. -/
theorem await_timeout {arrivals : List Arrival} (hnow : now ≤ deadline)
    (hnone : ∀ pre a post v, arrivals = pre ++ a :: post → now < deadline →
      (∀ b ∈ pre, Silent id abandoned b.item) → (∀ b ∈ pre, b.time < deadline) →
      a.time ≤ deadline → ¬ Decides id abandoned limit a.item v) :
    (await id abandoned limit deadline now arrivals).verdict = .refuse (.readTimeout limit) ∧
      (await id abandoned limit deadline now arrivals).ends = deadline := by
  induction arrivals generalizing now with
  | nil => exact ⟨rfl, max_eq_right hnow⟩
  | cons a rest ih =>
      by_cases hend : deadline ≤ now
      · rw [await, if_pos hend]
        exact ⟨rfl, Nat.le_antisymm hnow hend⟩
      · by_cases hlate : deadline < a.time
        · rw [await, if_neg hend, if_pos hlate]
          exact ⟨rfl, rfl⟩
        · have hlt : now < deadline := Nat.not_le.mp hend
          have hle : a.time ≤ deadline := Nat.not_lt.mp hlate
          rcases silent_or_decides id abandoned limit a.item with hs | ⟨v, hv⟩
          · rw [await_cons_silent hlt hle hs]
            refine ih (max_le hnow hle) ?_
            intro pre c post v hsplit hnow' hsilent hearly
            refine hnone (a :: pre) c post v (by rw [hsplit]; rfl) hlt ?_ ?_
            · exact List.forall_mem_cons.mpr ⟨hs, hsilent⟩
            · exact List.forall_mem_cons.mpr
                ⟨Nat.lt_of_le_of_lt (le_max_right _ _) hnow', hearly⟩
          · exact absurd hv (hnone [] a rest v rfl hlt (by simp) (by simp) hle)

/-- A wait ends at its deadline at the latest. -/
theorem ends_le_deadline {arrivals : List Arrival} (hnow : now ≤ deadline) :
    (await id abandoned limit deadline now arrivals).ends ≤ deadline := by
  induction arrivals generalizing now with
  | nil => exact Nat.le_of_eq (max_eq_right hnow)
  | cons a rest ih =>
      rw [await]
      split
      · exact hnow
      · split
        · exact Nat.le_refl deadline
        · have hread : max now a.time ≤ deadline := max_le hnow (Nat.not_lt.mp ‹_›)
          cases judge id abandoned limit a.item with
          | some v => exact hread
          | none => exact ih hread

/-- What comes behind the deadline makes no difference. -/
theorem await_append_late {arrivals late : List Arrival} (hnow : now ≤ deadline)
    (hlate : ∀ b ∈ late, deadline < b.time) :
    await id abandoned limit deadline now (arrivals ++ late) =
      await id abandoned limit deadline now arrivals := by
  induction arrivals generalizing now with
  | nil =>
      cases late with
      | nil => rfl
      | cons b late =>
          have hb : deadline < b.time := hlate b List.mem_cons_self
          rw [List.nil_append, await, await]
          by_cases hend : deadline ≤ now
          · rw [if_pos hend, max_eq_left hend]
          · rw [if_neg hend, if_pos hb, max_eq_right hnow]
  | cons a rest ih =>
      rw [List.cons_append, await, await]
      by_cases hend : deadline ≤ now
      · rw [if_pos hend, if_pos hend]
      · by_cases hlt : deadline < a.time
        · rw [if_neg hend, if_neg hend, if_pos hlt, if_pos hlt]
        · rw [if_neg hend, if_neg hend, if_neg hlt, if_neg hlt]
          simp only [ih (max_le hnow (Nat.not_lt.mp hlt))]

end Wait

/-! ## The reference -/

section Reference

variable {id : Nat} {abandoned : Option Nat} {limit : Duration} {start : Instant}

theorem await_of_closes {pre post : List Arrival} {a : Arrival} {v : Verdict}
    (h : Closes id abandoned limit start pre a v) (horder : ∀ b ∈ pre, b.time ≤ a.time) :
    await id abandoned limit (start + limit) start (pre ++ a :: post) =
      { ends := max start a.time, taken := pre.length + 1, verdict := v } := by
  have hstart : start < start + limit := Nat.lt_add_of_pos_right h.positive
  rw [await_append_silent hstart h.silent h.early,
    await_cons_decides (latest_lt hstart h.early) h.inTime h.decides, max_latest horder]

theorem await_of_not_closes {arrivals : List Arrival}
    (h : ∀ pre a post v, arrivals = pre ++ a :: post →
      ¬ Closes id abandoned limit start pre a v) :
    (await id abandoned limit (start + limit) start arrivals).verdict
        = .refuse (.readTimeout limit) ∧
      (await id abandoned limit (start + limit) start arrivals).ends = start + limit := by
  refine await_timeout (Nat.le_add_right _ _) ?_
  intro pre a post v hsplit hlt hsilent hearly hle hd
  exact h pre a post v hsplit ⟨Nat.lt_add_right_iff_pos.mp hlt, hsilent, hearly, hle, hd⟩

end Reference

/-- The wait for request `id` against its reference.  Of items in the order of
their times, the one that closes the wait gives the verdict, and without one
the wait ends at the deadline and reports its whole length.  Of a stream
without end only the items up to the deadline count. -/
theorem await_reference (id : Nat) (abandoned : Option Nat) (limit : Duration) (start : Instant)
    (arrivals : List Arrival) (hsorted : arrivals.Pairwise fun a b => a.time ≤ b.time) :
    (∀ item, Silent id abandoned item ↔ ¬ ∃ v, Decides id abandoned limit item v) ∧
    (∀ pre a post v, arrivals = pre ++ a :: post → Closes id abandoned limit start pre a v →
      await id abandoned limit (start + limit) start arrivals =
        { ends := max start a.time, taken := pre.length + 1, verdict := v }) ∧
    ((∀ pre a post v, arrivals = pre ++ a :: post →
        ¬ Closes id abandoned limit start pre a v) →
      (await id abandoned limit (start + limit) start arrivals).verdict
          = .refuse (.readTimeout limit) ∧
        (await id abandoned limit (start + limit) start arrivals).ends = start + limit) ∧
    (∀ (items : Nat → Arrival) (n : Nat), (∀ k, n ≤ k → start + limit < (items k).time) →
      ∀ m, n ≤ m →
        await id abandoned limit (start + limit) start ((List.range m).map items) =
          await id abandoned limit (start + limit) start ((List.range n).map items)) := by
  refine ⟨?_, ?_, await_of_not_closes, ?_⟩
  · intro item
    constructor
    · rintro hs ⟨v, hv⟩
      have hnone : judge id abandoned limit item = none := judge_of_silent hs
      rw [judge_of_decides hv] at hnone
      exact nomatch hnone
    · exact (silent_or_decides id abandoned limit item).resolve_right
  · rintro pre a post v rfl hc
    have horder : ∀ b ∈ pre, b.time ≤ a.time := fun b hb =>
      (List.pairwise_append.mp hsorted).2.2 b hb a List.mem_cons_self
    exact await_of_closes hc horder
  · intro items n hlate m hm
    obtain ⟨k, rfl⟩ := Nat.exists_eq_add_of_le hm
    rw [List.range_add, List.map_append]
    refine await_append_late (Nat.le_add_right _ _) ?_
    intro b hb
    obtain ⟨j, hj, rfl⟩ := List.mem_map.mp hb
    obtain ⟨i, -, rfl⟩ := List.mem_map.mp hj
    exact hlate _ (Nat.le_add_right _ _)

/-- A blank line, a message of the server's own and a late answer, then the
own response at the very deadline. -/
theorem await_reference_amid_noise :
    let noise : List Arrival :=
      [⟨1, .ok (.line " ")⟩, ⟨1, .ok (.line "\x7b\"method\":1,\"id\":5\x7d")⟩,
        ⟨2, .ok (.line "\x7b\"id\":2,\"result\":[]\x7d")⟩]
    let own : Arrival := ⟨3, .ok (.line "\x7b\"id\":5,\"result\":null\x7d")⟩
    let answer : Verdict := .answer { id := 5, result := some .null }
    (noise ++ [own]).Pairwise (fun a b => a.time ≤ b.time) ∧
      Closes 5 (some 3) 3 0 noise own answer ∧
      await 5 (some 3) 3 (0 + 3) 0 (noise ++ [own]) =
        { ends := 3, taken := 4, verdict := answer } := by
  intro noise own answer
  have hsorted : (noise ++ [own]).Pairwise (fun a b => a.time ≤ b.time) := by decide
  have hmessage : Json.parse (Text.trim "\x7b\"method\":1,\"id\":5\x7d")
      = .ok (.obj [("id", .nat 5), ("method", .nat 1)]) := rfl
  have hlate : responseOf (.ok (.line "\x7b\"id\":2,\"result\":[]\x7d"))
      = some { id := 2, result := some (.arr []) } := rfl
  have hown : responseOf own.item = some { id := 5, result := some .null } := rfl
  have hcloses : Closes 5 (some 3) 3 0 noise own answer :=
    { positive := by decide
      silent := by
        intro b hb
        simp only [noise, List.mem_cons, List.not_mem_nil, or_false] at hb
        rcases hb with rfl | rfl | rfl
        · exact .blank (by decide)
        · exact .message hmessage rfl
        · exact .late hlate (by decide) rfl (by decide)
      early := by decide
      inTime := by decide
      decides := .answer hown rfl rfl }
  exact ⟨hsorted, hcloses,
    (await_reference 5 (some 3) 3 0 (noise ++ [own]) hsorted).2.1 noise own [] answer rfl hcloses⟩

/-- "Strictly before the deadline" is wrong at both edges: the end of the
output at the very deadline is read, and a wait of no length does not read the
one that has been there before. -/
theorem deadline_edges :
    (¬ ∀ (id : Nat) (abandoned : Option Nat) (limit : Duration) (start : Instant)
        (arrivals : List Arrival), arrivals.Pairwise (fun a b => a.time ≤ b.time) →
        (∀ a ∈ arrivals, a.time < start + limit → Silent id abandoned a.item) →
        (await id abandoned limit (start + limit) start arrivals).verdict
          = .refuse (.readTimeout limit)) ∧
    (¬ ∀ (id : Nat) (abandoned : Option Nat) (limit : Duration) (start : Instant)
        (arrivals : List Arrival), arrivals.Pairwise (fun a b => a.time ≤ b.time) →
        ∀ pre a post v, arrivals = pre ++ a :: post →
          (∀ b ∈ pre, Silent id abandoned b.item) → a.time < start + limit →
          Decides id abandoned limit a.item v →
          (await id abandoned limit (start + limit) start arrivals).verdict = v) := by
  constructor
  · intro h
    have hread := h 1 none 1 0 [⟨1, .ok .endOfStream⟩] (List.pairwise_singleton _ _)
      (by simp)
    exact nomatch hread
  · intro h
    have hread := h 1 none 0 1 [⟨0, .ok .endOfStream⟩] (List.pairwise_singleton _ _)
      [] _ [] _ rfl (by simp) (by decide) .ended
    exact nomatch hread

end Conformance
