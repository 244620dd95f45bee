/-
Conformance — lines that the wait skips.

A blank line and a message of the server's own decide nothing, whatever request is waited for.
`Padded` says of two lists of arrivals that the second is the first with such lines put in, each
no later than what stands behind it; nothing else is moved.

A wait ends on both lists at the same instant and with the same verdict (`await_padded`), and where
it stops, or is dropped, what is left is again padded and what was taken is the same but for skipped
lines (`Cut`).  One wait is excepted: the one that comes to read, at the very instant of its deadline,
an item that is not skipped.  With a line put in front of it that comes at the same instant, the wait
has got to its deadline when it comes to the item, and does not read it.
-/
import Conformance.Proofs.Wait.Deadline

namespace Conformance

/-- A blank line, or an object with a `method`. -/
inductive Skippable : Except ClientError Incoming → Prop
  | blank {text : String} : IsBlankText text → Skippable (.ok (.line text))
  | message {text : String} {members : List (String × Json)} :
      Json.parse (Text.trim text) = .ok (.obj members) → (members.lookup "method").isSome →
      Skippable (.ok (.line text))

theorem silent_of_skippable {id : Nat} {abandoned : Option Nat}
    {item : Except ClientError Incoming} (h : Skippable item) : Silent id abandoned item := by
  cases h with
  | blank hblank => exact .blank hblank
  | message hparse hmethod => exact .message hparse hmethod

/-- The second list is the first, which is in the order of its times, with skippable lines put in. -/
inductive Padded : List Arrival → List Arrival → Prop
  | nil : Padded [] []
  | keep {a : Arrival} {as bs : List Arrival} : (∀ c ∈ as, a.time ≤ c.time) → Padded as bs →
      Padded (a :: as) (a :: bs)
  | add {b : Arrival} {as bs : List Arrival} : Skippable b.item → (∀ a ∈ as, b.time ≤ a.time) →
      Padded as bs → Padded as (b :: bs)

/-- The same items, skippable ones apart. -/
def SameNews (as bs : List Arrival) : Prop :=
  ∀ item, ¬ Skippable item → ((∃ a ∈ as, a.item = item) ↔ ∃ b ∈ bs, b.item = item)

/-- After `n` and `m` items the lists have given the same news, and are padded from there on. -/
structure Cut (as bs : List Arrival) (n m : Nat) : Prop where
  taken : SameNews (as.take n) (bs.take m)
  left : Padded (as.drop n) (bs.drop m)

section Lists

variable {a b : Arrival} {as bs : List Arrival} {n m : Nat}

theorem cut_zero (h : Padded as bs) : Cut as bs 0 0 := ⟨fun _ _ => by simp, h⟩

theorem cut_keep (h : Cut as bs n m) : Cut (a :: as) (a :: bs) (n + 1) (m + 1) where
  taken item hitem := by
    simp only [List.take_succ_cons, List.mem_cons, or_and_right, exists_or, exists_eq_left,
      h.taken item hitem]
  left := h.left

theorem cut_add (hb : Skippable b.item) (h : Cut as bs n m) : Cut as (b :: bs) n (m + 1) where
  taken item hitem := by
    have hne : b.item ≠ item := fun heq => hitem (heq ▸ hb)
    simp only [List.take_succ_cons, List.mem_cons, or_and_right, exists_or, exists_eq_left, hne,
      false_or, h.taken item hitem]
  left := h.left

/-- A skippable line of the first list can count as one that was put in. -/
theorem padded_of_cons (ha : Skippable a.item) (h : Padded (a :: as) bs) : Padded as bs := by
  generalize has : a :: as = both at h
  induction h with
  | nil => exact nomatch has
  | keep horder h =>
      cases has
      exact .add ha horder h
  | @add b both bs hb hearly _ ih =>
      cases has
      exact .add hb (fun c hc => hearly c (List.mem_cons_of_mem _ hc)) (ih rfl)

/-- What comes behind two lists may be padded as well. -/
theorem padded_append {as bs cs ds : List Arrival} (h : Padded as bs) (hbehind : Padded cs ds)
    (horder : ∀ a ∈ as ++ bs, ∀ c ∈ cs, a.time ≤ c.time) : Padded (as ++ cs) (bs ++ ds) := by
  induction h with
  | nil => exact hbehind
  | @keep a as bs hkeep _ ih =>
      refine .keep (fun c hc => ?_) (ih fun a' ha' => horder a' ?_)
      · rcases List.mem_append.mp hc with hc | hc
        · exact hkeep c hc
        · exact horder a (List.mem_append_left _ List.mem_cons_self) c hc
      · rcases List.mem_append.mp ha' with ha' | ha'
        · exact List.mem_append_left _ (List.mem_cons_of_mem a ha')
        · exact List.mem_append_right _ (List.mem_cons_of_mem a ha')
  | @add b as bs hb hearly _ ih =>
      refine .add hb (fun c hc => ?_) (ih fun a' ha' => horder a' ?_)
      · rcases List.mem_append.mp hc with hc | hc
        · exact hearly c hc
        · exact horder b (List.mem_append_right _ List.mem_cons_self) c hc
      · rcases List.mem_append.mp ha' with ha' | ha'
        · exact List.mem_append_left _ ha'
        · exact List.mem_append_right _ (List.mem_cons_of_mem b ha')

end Lists

/-! ## The wait -/

section Wait

variable {id : Nat} {abandoned : Option Nat} {limit : Duration} {deadline now : Instant}

theorem await_of_late_start (arrivals : List Arrival) (h : deadline ≤ now) :
    await id abandoned limit deadline now arrivals =
      { ends := now, taken := 0, verdict := .refuse (.readTimeout limit) } := by
  cases arrivals with
  | nil => rw [await, max_eq_left h]
  | cons a rest => rw [await, if_pos h]

theorem await_of_late {arrivals : List Arrival} (hnow : now < deadline)
    (h : ∀ a ∈ arrivals, deadline < a.time) :
    await id abandoned limit deadline now arrivals =
      { ends := deadline, taken := 0, verdict := .refuse (.readTimeout limit) } := by
  cases arrivals with
  | nil => rw [await, max_eq_right (Nat.le_of_lt hnow)]
  | cons a rest =>
      rw [await, if_neg (Nat.not_le.mpr hnow), if_pos (h a List.mem_cons_self)]

/-- A wait that nothing has reached could have started later. -/
theorem await_of_later {arrivals : List Arrival} {later : Instant} (hnow : now ≤ later)
    (hlater : later < deadline) (h : ∀ a ∈ arrivals, later ≤ a.time) :
    await id abandoned limit deadline later arrivals
      = await id abandoned limit deadline now arrivals := by
  cases arrivals with
  | nil => rw [await, await, max_eq_right (Nat.le_of_lt hlater),
      max_eq_right (Nat.le_of_lt (Nat.lt_of_le_of_lt hnow hlater))]
  | cons a rest =>
      have ha : later ≤ a.time := h a List.mem_cons_self
      rw [await, await, if_neg (Nat.not_le.mpr hlater),
        if_neg (Nat.not_le.mpr (Nat.lt_of_le_of_lt hnow hlater)), max_eq_right ha,
        max_eq_right (Nat.le_trans hnow ha)]

/-- A wait does not end before it starts. -/
theorem now_le_ends (arrivals : List Arrival) :
    now ≤ (await id abandoned limit deadline now arrivals).ends := by
  induction arrivals generalizing now with
  | nil => exact le_max_left _ _
  | cons b rest ih =>
      rw [await]
      split
      · exact Nat.le_refl now
      · split
        · exact Nat.le_of_not_le ‹_›
        · cases judge id abandoned limit b.item with
          | some v => exact le_max_left _ _
          | none => exact Nat.le_trans (le_max_left _ _) ih

/-- What a wait takes has come when it ends. -/
theorem time_le_ends {arrivals : List Arrival} :
    ∀ a ∈ arrivals.take (await id abandoned limit deadline now arrivals).taken,
      a.time ≤ (await id abandoned limit deadline now arrivals).ends := by
  induction arrivals generalizing now with
  | nil => simp
  | cons b rest ih =>
      intro a ha
      rw [await] at ha ⊢
      split at ha
      · simp at ha
      · rw [if_neg ‹_›]
        split at ha
        · simp at ha
        · rw [if_neg ‹_›]
          cases hj : judge id abandoned limit b.item with
          | some v =>
              rw [hj] at ha
              cases List.mem_singleton.mp ha
              exact le_max_right _ _
          | none =>
              rw [hj] at ha
              rcases List.mem_cons.mp ha with rfl | ha
              · exact Nat.le_trans (le_max_right _ _) (now_le_ends rest)
              · exact ih a ha

end Wait

/-! ## Where a wait is dropped -/

theorem readBy_zero (t : Instant) (arrivals : List Arrival) : readBy t 0 arrivals = 0 := by
  simp [readBy]

theorem readBy_cons (t : Instant) (n : Nat) (a : Arrival) (rest : List Arrival) :
    readBy t (n + 1) (a :: rest) = if a.time ≤ t then readBy t n rest + 1 else 0 := by
  rw [readBy, readBy, List.take_succ_cons, List.takeWhile_cons]
  by_cases ha : a.time ≤ t <;> simp [ha]

theorem readBy_of_later {t : Instant} (n : Nat) {arrivals : List Arrival}
    (h : ∀ a ∈ arrivals, t < a.time) : readBy t n arrivals = 0 := by
  cases arrivals with
  | nil => simp [readBy]
  | cons a rest =>
      cases n with
      | zero => exact readBy_zero t _
      | succ n => rw [readBy_cons, if_neg (Nat.not_le.mpr (h a List.mem_cons_self))]

/-- Two waits on padded lists: they end alike, and wherever they stop or are dropped the lists are
cut. -/
structure Foretold (as bs : List Arrival) (w w' : Wait) : Prop where
  ends : w'.ends = w.ends
  verdict : w'.verdict = w.verdict
  whole : Cut as bs w.taken w'.taken
  dropped : ∀ t, Cut as bs (readBy t w.taken as) (readBy t w'.taken bs)

/-- No item that is not skippable is read at the very instant of the deadline. -/
def NoneAtDeadline (deadline : Instant) (arrivals : List Arrival) (w : Wait) : Prop :=
  ∀ a ∈ arrivals.take w.taken, a.time = deadline → Skippable a.item

section Padding

variable {id : Nat} {abandoned : Option Nat} {limit : Duration} {deadline now : Instant}
variable {as bs : List Arrival}

theorem foretold_of_none {v : Verdict} {ends : Instant} (h : Padded as bs) :
    Foretold as bs { ends, taken := 0, verdict := v } { ends, taken := 0, verdict := v } where
  ends := rfl
  verdict := rfl
  whole := cut_zero h
  dropped t := by
    rw [readBy_zero, readBy_zero]
    exact cut_zero h

/-- Both waits read the same item first. -/
theorem foretold_keep {a : Arrival} {w w' : Wait} (horder : ∀ c ∈ as, a.time ≤ c.time)
    (hpadded : Padded as bs) (h : Foretold as bs w w') :
    Foretold (a :: as) (a :: bs) { w with taken := w.taken + 1 }
      { w' with taken := w'.taken + 1 } where
  ends := h.ends
  verdict := h.verdict
  whole := cut_keep h.whole
  dropped t := by
    rw [readBy_cons, readBy_cons]
    by_cases ha : a.time ≤ t
    · rw [if_pos ha, if_pos ha]
      exact cut_keep (h.dropped t)
    · rw [if_neg ha, if_neg ha]
      exact cut_zero (.keep horder hpadded)

/-- The second wait reads a line first that was put in. -/
theorem foretold_add {b : Arrival} {w w' : Wait} (hb : Skippable b.item)
    (hearly : ∀ a ∈ as, b.time ≤ a.time) (hpadded : Padded as bs) (h : Foretold as bs w w') :
    Foretold as (b :: bs) w { w' with taken := w'.taken + 1 } where
  ends := h.ends
  verdict := h.verdict
  whole := cut_add hb h.whole
  dropped t := by
    rw [readBy_cons]
    by_cases ht : b.time ≤ t
    · rw [if_pos ht]
      exact cut_add hb (h.dropped t)
    · rw [if_neg ht, readBy_of_later _ fun a ha =>
        Nat.lt_of_lt_of_le (Nat.not_le.mp ht) (hearly a ha)]
      exact cut_zero (.add hb hearly hpadded)

/-- The second wait reads a line at the deadline that was put in, and stops.  The first one stops
there too, or reads one line more, which it skips. -/
theorem foretold_at_deadline {b : Arrival} (hb : Skippable b.item) (hnow : now < deadline)
    (hlast : b.time = deadline) (hearly : ∀ a ∈ as, b.time ≤ a.time) (hpadded : Padded as bs)
    (hedge : NoneAtDeadline deadline as (await id abandoned limit deadline now as)) :
    Foretold as (b :: bs) (await id abandoned limit deadline now as)
      { ends := deadline, taken := 1, verdict := .refuse (.readTimeout limit) } := by
  have hstop : Foretold as (b :: bs) ⟨deadline, 0, .refuse (.readTimeout limit)⟩
      ⟨deadline, 1, .refuse (.readTimeout limit)⟩ :=
    foretold_add hb hearly hpadded (foretold_of_none hpadded)
  cases as with
  | nil =>
      rw [await, max_eq_right (Nat.le_of_lt hnow)]
      exact hstop
  | cons a rest =>
      by_cases ha : deadline < a.time
      · rw [await, if_neg (Nat.not_le.mpr hnow), if_pos ha]
        exact hstop
      · have hat : a.time = deadline :=
          Nat.le_antisymm (Nat.not_lt.mp ha) (hlast ▸ hearly a List.mem_cons_self)
        have hread : ∃ n, (await id abandoned limit deadline now (a :: rest)).taken = n + 1 := by
          rw [await, if_neg (Nat.not_le.mpr hnow), if_neg ha]
          cases judge id abandoned limit a.item with
          | some v => exact ⟨0, rfl⟩
          | none => exact ⟨_, rfl⟩
        have hskip : Skippable a.item := by
          obtain ⟨n, hn⟩ := hread
          refine hedge a ?_ hat
          rw [hn, List.take_succ_cons]
          exact List.mem_cons_self
        rw [await_cons_silent hnow (Nat.le_of_eq hat) (silent_of_skippable hskip), hat,
          max_eq_right (Nat.le_of_lt hnow), await_of_late_start _ (Nat.le_refl deadline)]
        have hcut : Cut (a :: rest) (b :: bs) 1 1 :=
          ⟨fun item hitem => by
              have hne : a.item ≠ item := fun heq => hitem (heq ▸ hskip)
              have hne' : b.item ≠ item := fun heq => hitem (heq ▸ hb)
              simp [hne, hne'],
            padded_of_cons hskip hpadded⟩
        refine ⟨rfl, rfl, hcut, fun t => ?_⟩
        rw [readBy_cons, readBy_cons, hat, hlast, readBy_zero, readBy_zero]
        split_ifs
        · exact hcut
        · exact cut_zero (.add hb hearly hpadded)

/-- Lines that are skipped make no difference to a wait that reads nothing else at its deadline. -/
theorem await_padded (h : Padded as bs) :
    ∀ {now : Instant}, NoneAtDeadline deadline as (await id abandoned limit deadline now as) →
      Foretold as bs (await id abandoned limit deadline now as)
        (await id abandoned limit deadline now bs) := by
  induction h with
  | nil => exact fun _ => foretold_of_none .nil
  | @keep a as bs horder hpadded ih =>
      intro now hedge
      rw [await] at hedge ⊢
      rw [await]
      split
      · exact foretold_of_none (.keep horder hpadded)
      · rw [if_neg ‹_›] at hedge
        split
        · exact foretold_of_none (.keep horder hpadded)
        · rw [if_neg ‹_›] at hedge
          cases hj : judge id abandoned limit a.item with
          | some v => exact foretold_keep horder hpadded (foretold_of_none hpadded)
          | none =>
              rw [hj] at hedge
              exact foretold_keep horder hpadded (ih fun c hc => hedge c (List.mem_cons_of_mem _ hc))
  | @add b as bs hb hearly hpadded ih =>
      intro now hedge
      by_cases hnow : deadline ≤ now
      · rw [await_of_late_start _ hnow, await_of_late_start _ hnow]
        exact foretold_of_none (.add hb hearly hpadded)
      have hbefore : now < deadline := Nat.not_le.mp hnow
      rcases Nat.lt_trichotomy b.time deadline with hearlier | hlast | hlater
      · -- the line has gone by when the wait goes on, and the first wait has not moved
        rw [await_cons_silent hbefore (Nat.le_of_lt hearlier) (silent_of_skippable hb)]
        have hrest : await id abandoned limit deadline (max now b.time) as
            = await id abandoned limit deadline now as := by
          rcases Nat.le_total b.time now with hle | hle
          · rw [max_eq_left hle]
          · rw [max_eq_right hle]
            exact await_of_later hle hearlier hearly
        rw [← hrest] at hedge ⊢
        exact foretold_add hb hearly hpadded (ih hedge)
      · rw [await_cons_silent hbefore (Nat.le_of_eq hlast) (silent_of_skippable hb), hlast,
          max_eq_right (Nat.le_of_lt hbefore), await_of_late_start bs (Nat.le_refl deadline)]
        exact foretold_at_deadline hb hbefore hlast hearly hpadded hedge
      · rw [await_of_late hbefore fun a ha => Nat.lt_of_lt_of_le hlater (hearly a ha), await,
          if_neg hnow, if_pos hlater]
        exact foretold_of_none (.add hb hearly hpadded)

/-- A wait that ends when it starts has read nothing at its deadline. -/
theorem noneAtDeadline_of_ended (h : (await id abandoned limit (now + limit) now as).ends ≤ now) :
    NoneAtDeadline (now + limit) as (await id abandoned limit (now + limit) now as) := by
  intro a ha hat
  have htime : a.time ≤ now := Nat.le_trans (time_le_ends a ha) h
  rw [hat] at htime
  rw [await_of_late_start _ htime] at ha
  exact nomatch ha

end Padding

end Conformance
