/-
Conformance — who holds the connection.

A board says of every branch where it stands, who holds the connection and who
is in line for it.  `Sane` is how these agree: only the holder waits for the
transport; the holder waits, or has been handed the connection and not been
polled since; who is in line is queued, and stands there once; nobody is in
line when nobody holds.

`Held` is the same for the time in which the holder is being driven and its own
place tells nothing.  A board gets from one to the other in four ways, and each
has its lemma: the connection is taken, the holder goes to wait, it ends and
gives the connection on, or a branch that does not hold is put elsewhere.
-/
import Conformance.Client.Schedule
import Mathlib.Data.List.Nodup

namespace Conformance

variable {σ : Type}

/-- The operation of the branch waits for the transport. -/
def Place.waits : Place σ → Prop
  | .writing _ _ => True
  | .reading _ _ => True
  | .stopping _ => True
  | _ => False

/-- The branch is in line, or holds and has not been polled since. -/
def Place.isQueued : Place σ → Prop
  | .queued _ => True
  | _ => False

namespace Board

/-- Where a branch stands. -/
def placeOf (b : Board σ) (i : Nat) : Option (Place σ) := (b.tasks[i]?).map (·.place)

theorem placeOf_setPlace (b : Board σ) (i j : Nat) (p : Place σ) :
    (b.setPlace i p).placeOf j = if i = j then (b.placeOf j).map fun _ => p else b.placeOf j := by
  simp only [placeOf, setPlace, setTask, List.getElem?_modify]
  by_cases hij : i = j
  · subst hij
    cases ht : b.tasks[i]? <;> simp
  · simp [hij]

theorem placeOf_setPlace_self {b : Board σ} {i : Nat} (p : Place σ)
    (hi : (b.placeOf i).isSome) : (b.setPlace i p).placeOf i = some p := by
  rw [placeOf_setPlace, if_pos rfl]
  obtain ⟨q, hq⟩ := Option.isSome_iff_exists.mp hi
  rw [hq, Option.map_some]

/-- A branch that is set to a place stands there. -/
theorem eq_of_setPlace {b : Board σ} {i : Nat} {p q : Place σ}
    (h : (b.setPlace i p).placeOf i = some q) : q = p := by
  rw [placeOf_setPlace, if_pos rfl] at h
  obtain ⟨_, _, rfl⟩ := Option.map_eq_some_iff.mp h
  rfl

theorem placeOf_setPlace_ne {b : Board σ} {i j : Nat} (p : Place σ) (hij : j ≠ i) :
    (b.setPlace i p).placeOf j = b.placeOf j := by
  rw [placeOf_setPlace, if_neg (Ne.symm hij)]

/-- What leaves a branch in its place changes no place. -/
theorem placeOf_setTask {b : Board σ} {i : Nat} {f : Task σ → Task σ}
    (hf : ∀ t, (f t).place = t.place) (j : Nat) : (b.setTask i f).placeOf j = b.placeOf j := by
  simp only [placeOf, setTask, List.getElem?_modify]
  cases b.tasks[j]? with
  | none => rfl
  | some t =>
      by_cases hij : i = j
      · simp [hij, hf]
      · simp [hij]

/-! ## Boards at rest -/

structure Sane (b : Board σ) : Prop where
  waits : ∀ i p, b.placeOf i = some p → p.waits → b.holder = some i
  holds : ∀ i, b.holder = some i → ∃ p, b.placeOf i = some p ∧ (p.waits ∨ p.isQueued)
  queued : ∀ i ∈ b.line, ∃ p, b.placeOf i = some p ∧ p.isQueued
  once : b.line.Nodup
  apart : ∀ i, b.holder = some i → i ∉ b.line
  idle : b.holder = none → b.line = []

/-- Branch `i` holds the connection; nothing is said of its place. -/
structure Held (b : Board σ) (i : Nat) : Prop where
  holder : b.holder = some i
  there : (b.placeOf i).isSome
  others : ∀ j p, j ≠ i → b.placeOf j = some p → ¬ p.waits
  queued : ∀ j ∈ b.line, ∃ p, b.placeOf j = some p ∧ p.isQueued
  once : b.line.Nodup
  apart : i ∉ b.line

theorem held_of_sane {b : Board σ} {i : Nat} (hs : Sane b) (hi : b.holder = some i) :
    Held b i where
  holder := hi
  there := by
    obtain ⟨p, hp, _⟩ := hs.holds i hi
    rw [hp, Option.isSome_some]
  others := fun j p hj hp hw => hj (Option.some.inj ((hs.waits j p hp hw).symm.trans hi))
  queued := hs.queued
  once := hs.once
  apart := hs.apart i hi

/-- The connection is taken by a branch that finds it free. -/
theorem held_of_free {b : Board σ} {i : Nat} (hs : Sane b) (hfree : b.holder = none)
    (hi : (b.placeOf i).isSome) : Held { b with holder := some i } i where
  holder := rfl
  there := hi
  others := fun j p _ hp hw => nomatch hfree.symm.trans (hs.waits j p hp hw)
  queued := hs.queued
  once := hs.once
  apart := by
    show i ∉ b.line
    rw [hs.idle hfree]
    exact List.not_mem_nil

theorem held_setSession {b : Board σ} {i : Nat} (h : Held b i) (s : Session σ) :
    Held { b with session := s } i :=
  ⟨h.holder, h.there, h.others, h.queued, h.once, h.apart⟩

theorem held_setConn {b : Board σ} {i : Nat} (h : Held b i) (c : Connection) :
    Held (b.setConn c) i := held_setSession h _

theorem held_setWire {b : Board σ} {i : Nat} (h : Held b i) (w : σ) : Held (b.setWire w) i :=
  held_setSession h _

theorem ne_of_mem_line {b : Board σ} {i j : Nat} (h : Held b i) (hj : j ∈ b.line) : j ≠ i := by
  rintro rfl
  exact h.apart hj

/-- The holder goes to wait. -/
theorem sane_of_waits {b : Board σ} {i : Nat} {p : Place σ} (h : Held b i) (hp : p.waits) :
    Sane (b.setPlace i p) where
  waits := by
    intro j q hq hw
    by_cases hj : j = i
    · rw [hj]
      exact h.holder
    · rw [placeOf_setPlace_ne p hj] at hq
      exact absurd hw (h.others j q hj hq)
  holds := by
    intro j hj
    cases h.holder.symm.trans hj
    exact ⟨p, placeOf_setPlace_self p h.there, .inl hp⟩
  queued := fun j hj => by
    rw [placeOf_setPlace_ne p (ne_of_mem_line h hj)]
    exact h.queued j hj
  once := h.once
  apart := fun j hj => by
    cases h.holder.symm.trans hj
    exact h.apart
  idle := fun hn => nomatch h.holder.symm.trans hn

/-- When the holder ends, nobody waits. -/
theorem not_waits_of_ended {b : Board σ} {i : Nat} (h : Held b i) (e : Ending) {j : Nat}
    {p : Place σ} (hp : (b.setPlace i (.ended e)).release.placeOf j = some p) : ¬ p.waits := by
  by_cases hj : j = i
  · subst hj
    cases (placeOf_setPlace_self (.ended e) h.there).symm.trans hp
    exact id
  · exact h.others j p hj ((placeOf_setPlace_ne _ hj).symm.trans hp)

/-- The holder ends, and the first in line holds. -/
theorem sane_of_ended {b : Board σ} {i : Nat} (h : Held b i) (e : Ending) :
    Sane (b.setPlace i (.ended e)).release where
  waits := fun _ _ hq hw => absurd hw (not_waits_of_ended h e hq)
  holds := by
    intro j hj
    have hmem : j ∈ b.line := List.mem_of_head? hj
    obtain ⟨p, hp, hq⟩ := h.queued j hmem
    exact ⟨p, (placeOf_setPlace_ne _ (ne_of_mem_line h hmem)).trans hp, .inr hq⟩
  queued := by
    intro j hj
    have hmem : j ∈ b.line := List.mem_of_mem_tail hj
    obtain ⟨p, hp, hq⟩ := h.queued j hmem
    exact ⟨p, (placeOf_setPlace_ne _ (ne_of_mem_line h hmem)).trans hp, hq⟩
  once := h.once.tail
  apart := by
    intro j hj hmem
    have hline : b.line = j :: b.line.tail := List.eq_cons_of_mem_head? hj
    exact (List.nodup_cons.mp (hline ▸ h.once)).1 hmem
  idle := by
    intro hn
    have hline : b.line = [] := List.head?_eq_none_iff.mp hn
    show b.line.tail = []
    rw [hline, List.tail_nil]

/-- A branch that neither waits nor is queued does not hold. -/
theorem not_holder_of_free {b : Board σ} {i : Nat} {old : Place σ} (h : Sane b)
    (hold : b.placeOf i = some old) (hfree : ¬ old.waits ∧ ¬ old.isQueued) :
    b.holder ≠ some i := by
  intro hi
  obtain ⟨q, hq, hstate⟩ := h.holds i hi
  cases hold.symm.trans hq
  exact hstate.elim hfree.1 hfree.2

/-- A branch that neither waits nor is queued finds the connection free, if it is the only one. -/
theorem free_of_only {b : Board σ} {i : Nat} {old : Place σ} (h : Sane b)
    (honly : ∀ j p, b.placeOf j = some p → j = i) (hold : b.placeOf i = some old)
    (hfree : ¬ old.waits ∧ ¬ old.isQueued) : b.holder = none := by
  cases hholder : b.holder with
  | none => rfl
  | some j =>
      obtain ⟨q, hq, _⟩ := h.holds j hholder
      cases honly j q hq
      exact absurd hholder (not_holder_of_free h hold hfree)

/-- A branch that neither waits nor is queued is put elsewhere. -/
theorem sane_of_moved {b : Board σ} {i : Nat} {old p : Place σ} (h : Sane b)
    (hold : b.placeOf i = some old) (hfree : ¬ old.waits ∧ ¬ old.isQueued) (hp : ¬ p.waits) :
    Sane (b.setPlace i p) where
  waits := by
    intro j q hq hw
    by_cases hj : j = i
    · subst hj
      rw [placeOf_setPlace_self p (by rw [hold]; rfl)] at hq
      cases hq
      exact absurd hw hp
    · exact h.waits j q ((placeOf_setPlace_ne p hj).symm.trans hq) hw
  holds := by
    intro j hj
    obtain ⟨q, hq, hstate⟩ := h.holds j hj
    have hne : j ≠ i := by
      rintro rfl
      exact not_holder_of_free h hold hfree hj
    exact ⟨q, (placeOf_setPlace_ne p hne).trans hq, hstate⟩
  queued := by
    intro j hj
    obtain ⟨q, hq, hstate⟩ := h.queued j hj
    have hne : j ≠ i := by
      rintro rfl
      cases hold.symm.trans hq
      exact hfree.2 hstate
    exact ⟨q, (placeOf_setPlace_ne p hne).trans hq, hstate⟩
  once := h.once
  apart := h.apart
  idle := h.idle

/-- A branch that neither waits nor is queued gets in line behind a holder. -/
theorem sane_of_lines_up {b : Board σ} {i : Nat} {old : Place σ} (op : Operation) (h : Sane b)
    (hold : b.placeOf i = some old) (hfree : ¬ old.waits ∧ ¬ old.isQueued)
    (hheld : b.holder ≠ none) :
    Sane ({ b with line := b.line ++ [i] }.setPlace i (.queued op)) := by
  have hmoved : Sane (b.setPlace i (.queued op)) := sane_of_moved h hold hfree id
  have hself : (b.setPlace i (.queued op)).placeOf i = some (.queued op) :=
    placeOf_setPlace_self _ (by rw [hold]; rfl)
  have hout : i ∉ b.line := by
    intro hin
    obtain ⟨q, hq, hstate⟩ := h.queued i hin
    cases hold.symm.trans hq
    exact hfree.2 hstate
  have hnot : b.holder ≠ some i := not_holder_of_free h hold hfree
  exact
    { waits := hmoved.waits
      holds := hmoved.holds
      queued := by
        intro j hj
        rcases List.mem_append.mp hj with hj | hj
        · exact hmoved.queued j hj
        · cases List.mem_singleton.mp hj
          exact ⟨_, hself, trivial⟩
      once := by
        refine List.nodup_append.mpr ⟨h.once, List.nodup_singleton i, fun j hj k hk hjk => ?_⟩
        cases List.mem_singleton.mp hk
        exact hout (hjk ▸ hj)
      apart := by
        intro j hj hin
        rcases List.mem_append.mp hin with hin | hin
        · exact h.apart j hj hin
        · cases List.mem_singleton.mp hin
          exact hnot hj
      idle := fun hn => absurd hn hheld }

/-- A branch leaves the line. -/
theorem sane_of_leaves {b : Board σ} {i : Nat} (e : Ending) (h : Sane b)
    (hi : b.holder ≠ some i) (hthere : (b.placeOf i).isSome) :
    Sane { b.setPlace i (.ended e) with line := b.line.filter (· ≠ i) } where
  waits := by
    intro j q hq hw
    by_cases hj : j = i
    · subst hj
      cases (placeOf_setPlace_self (.ended e) hthere).symm.trans hq
      exact hw.elim
    · exact h.waits j q ((placeOf_setPlace_ne _ hj).symm.trans hq) hw
  holds := by
    intro j hj
    obtain ⟨q, hq, hstate⟩ := h.holds j hj
    have hne : j ≠ i := by
      rintro rfl
      exact hi hj
    exact ⟨q, (placeOf_setPlace_ne _ hne).trans hq, hstate⟩
  queued := by
    intro j hj
    obtain ⟨hin, hne⟩ := List.mem_filter.mp hj
    obtain ⟨q, hq, hstate⟩ := h.queued j hin
    exact ⟨q, (placeOf_setPlace_ne _ (of_decide_eq_true hne)).trans hq, hstate⟩
  once := h.once.filter _
  apart := fun j hj hin => h.apart j hj (List.mem_filter.mp hin).1
  idle := by
    intro hn
    show b.line.filter (· ≠ i) = []
    rw [h.idle hn, List.filter_nil]

/-- Only holder, line and places count. -/
theorem sane_congr {b b' : Board σ} (hholder : b'.holder = b.holder) (hline : b'.line = b.line)
    (hplaces : ∀ i, b'.placeOf i = b.placeOf i) (h : Sane b) : Sane b' := by
  constructor
  · simpa only [hholder, hplaces] using h.waits
  · simpa only [hholder, hplaces] using h.holds
  · simpa only [hline, hplaces] using h.queued
  · simpa only [hline] using h.once
  · simpa only [hholder, hline] using h.apart
  · simpa only [hholder, hline] using h.idle

end Board

end Conformance
