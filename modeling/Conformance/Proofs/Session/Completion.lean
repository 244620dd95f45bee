/-
Conformance — the schedule serves everybody.

The schedule that runs gives up after a bounded number of rounds (`passBound`).
With a prompt server and branches without limits it never gets there: in every
round some branch has something to do, and what is left to do (`Board.left`) goes
down.  Some branch has something to do because whoever is queued is due
(`Lined`), so that either the connection has been handed over, or its holder
waits for the transport, or somebody is still in its pause; and time, when it
passes, passes to the first instant at which a branch goes on.

The clock is kept in sight as well: each step takes the server no longer than
its lag, so the instant of the last step is known beforehand (`Soon`).
-/
import Conformance.Proofs.Session.Serving
import Mathlib.Algebra.Order.BigOperators.Group.Finset

namespace Conformance

open Client Connection Board

variable {σ : Type} {T : Transport σ} {o : ClientOptions} {v : Service σ} {qs : Nat → Inquiry}
variable {b b' : Board σ} {i : Nat}

/-! ## Who is queued is due -/

/-- A branch that is queued holds the connection or is in line. -/
def Lined (b : Board σ) : Prop :=
  ∀ i op, b.placeOf i = some (.queued op) → b.holder = some i ∨ i ∈ b.line

theorem lined_of_place {p : Place σ} (hl : Lined b) (hp : ¬ p.isQueued) :
    Lined (b.setPlace i p) := by
  intro j op hj
  by_cases hji : j = i
  · subst hji
    rw [← eq_of_setPlace hj] at hp
    exact absurd trivial hp
  · exact hl j op ((placeOf_setPlace_ne p hji).symm.trans hj)

/-- Who is driven leaves the others in line. -/
theorem lined_of_lands (hheld : Held b i) (hl : ∀ j op, j ≠ i → b.placeOf j = some (.queued op) →
    j ∈ b.line) (h : Lands i b b') : Lined b' := by
  intro j op hj
  have hothers : j ≠ i → j ∈ b.line := fun hji =>
    hl j op hji ((placeOf_of_lands h hji).symm.trans hj)
  cases h with
  | @waits s p _ hp =>
      refine .inr (hothers ?_)
      rintro rfl
      rw [placeOf_setPlace_self (b := { b with session := s }) p hheld.there] at hj
      cases hj
      exact hp
  | @ends s e =>
      have hmem : j ∈ b.line := hothers (by
        rintro rfl
        exact nomatch (placeOf_setPlace_self (b := { b with session := s }) _ hheld.there).symm.trans hj)
      obtain ⟨k, rest, hline⟩ := List.exists_cons_of_ne_nil (List.ne_nil_of_mem hmem)
      show b.line.head? = some j ∨ j ∈ b.line.tail
      rw [hline] at hmem ⊢
      exact (List.mem_cons.mp hmem).imp_left fun h => congrArg some h.symm

theorem lined_of_goes (hs : Sane b) (hl : Lined b) (h : Goes T o i b b') : Lined b' := by
  have hbegun : Lined (b.begun i) := fun j op hj => hl j op ((placeOf_begun b i j).symm.trans hj)
  have hwaits : ∀ {p : Place σ} {w : σ}, b.placeOf i = some p → p.waits →
      Lands i (b.setWire w) b' → Lined b' := by
    intro p w hp hwaits hlands
    have hi := hs.waits i p hp hwaits
    refine lined_of_lands (held_setWire (held_of_sane hs hi) w) (fun j op hji hj => ?_) hlands
    exact (hl j op hj).resolve_left fun h => hji (Option.some.inj (h.symm.trans hi))
  cases h with
  | still => exact hl
  | rests _ _ _ _ hfree => exact lined_of_place hbegun hfree.2
  | rested => exact lined_of_place hl id
  | refused => exact lined_of_place hbegun id
  | linesUp =>
      intro j op hj
      by_cases hji : j = i
      · exact .inr (List.mem_append_right _ (by rw [hji]; exact List.mem_singleton_self i))
      · rw [placeOf_setPlace_ne _ hji] at hj
        exact (hbegun j op hj).imp_right fun h => List.mem_append_left _ h
  | enters hasks hfree hd =>
      refine lined_of_lands (held_of_begun hs hasks hfree) (fun j op _ hj => ?_) (lands_of_driven hd)
      exact (hbegun j op hj).resolve_left fun h => nomatch hfree.symm.trans h
  | handed hp hi hd =>
      refine lined_of_lands (held_of_sane hs hi) (fun j op hji hj => ?_) (lands_of_driven hd)
      exact (hl j op hj).resolve_left fun h => hji (Option.some.inj (h.symm.trans hi))
  | wrote hp _ hd | read hp _ hd | stopped hp _ hd =>
      exact hwaits hp trivial (lands_of_driven hd)

/-! ## What is left to do -/

namespace Board

/-- What is left to do for all branches. -/
def left (b : Board σ) : Nat :=
  ∑ i ∈ Finset.range b.errands.length, ((b.placeOf i).map Place.left).getD 0

/-- Time has to pass before branch `i` goes on from where it is. -/
def Idle (b : Board σ) (i : Nat) : Prop :=
  ∀ p u, b.placeOf i = some p → p.wake = some u → b.session.now < u

end Board

/-- If no branch takes longer than `lag` for a step, all is done by `finish`. -/
structure Soon (lag : Duration) (finish : Instant) (b : Board σ) : Prop where
  now : b.session.now + lag * b.left ≤ finish
  wakes : ∀ i p u, b.placeOf i = some p → p.wake = some u → u + lag * b.left ≤ finish

theorem left_of_nears {lag : Duration} (h : Nears lag i b b') :
    (b' = b ∧ ¬ b.ready i) ∨ b'.left < b.left := by
  cases h with
  | still hnot => exact .inl ⟨rfl, hnot⟩
  | @nearer _ p p' hp hp' hlt hothers _ herrands =>
      right
      rw [Board.left, Board.left, herrands]
      refine Finset.sum_lt_sum (fun j _ => ?_) ⟨i, Finset.mem_range.mpr ?_, ?_⟩
      · by_cases hji : j = i
        · subst hji
          rw [hp, hp']
          exact Nat.le_of_lt hlt
        · rw [hothers j hji]
      · exact placeOf_isSome_iff.mp (by rw [hp]; rfl)
      · rw [hp, hp']
        exact hlt

theorem soon_of_nears {lag : Duration} {finish : Instant} (hs : Soon lag finish b)
    (h : Nears lag i b b') : Soon lag finish b' := by
  rcases left_of_nears h with ⟨rfl, _⟩ | hlt
  · exact hs
  · have hless : lag * b'.left ≤ lag * b.left := Nat.mul_le_mul_left lag (Nat.le_of_lt hlt)
    cases h with
    | still => exact hs
    | @nearer _ p p' hp hp' _ hothers hsame _ hwake =>
        constructor
        · rw [hsame]
          exact Nat.le_trans (Nat.add_le_add_left hless _) hs.now
        · intro j q u hq hu
          by_cases hji : j = i
          · subst hji
            cases hp'.symm.trans hq
            calc u + lag * b'.left
                ≤ b.session.now + lag + lag * b'.left := Nat.add_le_add_right (hwake u hu).2 _
              _ = b.session.now + lag * (b'.left + 1) := by rw [Nat.mul_succ, Nat.add_assoc, Nat.add_comm lag]
              _ ≤ b.session.now + lag * b.left := Nat.add_le_add_left (Nat.mul_le_mul_left lag hlt) _
              _ ≤ finish := hs.now
          · rw [hothers j hji] at hq
            exact Nat.le_trans (Nat.add_le_add_left hless _) (hs.wakes j q u hq hu)

/-- A branch that does not go on when it is polled has to let time pass. -/
theorem idle_of_not_ready (h : ¬ b.ready i) : b.Idle i := by
  intro p u hp hu
  have hnot : ¬ p.goesOn b.session.now (b.holder = some i) := fun hgoes => h ⟨p, hp, hgoes⟩
  cases p with
  | pausing | resting | reading | stopping =>
      cases hu
      exact Nat.not_le.mp hnot
  | writing why s =>
      simp only [Place.wake] at hu
      simp only [Place.goesOn, hu, Option.any_some, decide_eq_true_eq] at hnot
      exact Nat.not_le.mp hnot
  | queued | ended => cases hu

/-- When its instant has come a branch goes on. -/
theorem ready_of_wake {p : Place σ} {u : Instant} (hp : b.placeOf i = some p)
    (hu : p.wake = some u) (hnow : u ≤ b.session.now) : b.ready i := by
  refine ⟨p, hp, ?_⟩
  cases p with
  | pausing | resting | reading | stopping =>
      cases hu
      exact hnow
  | writing why s =>
      simp only [Place.wake] at hu
      simp only [Place.goesOn, hu, Option.any_some, decide_eq_true_eq]
      exact hnow
  | queued | ended => cases hu

/-- A poll of one branch leaves the others idle, and itself. -/
theorem idle_of_nears {lag : Duration} {j : Nat} (h : Nears lag i b b')
    (hj : j = i ∨ b.Idle j) : b'.Idle j := by
  cases h with
  | still hnot =>
      rcases hj with rfl | hj
      · exact idle_of_not_ready hnot
      · exact hj
  | nearer hp hp' _ hothers hsame _ hwake =>
      intro q u hq hu
      rw [hsame]
      by_cases hji : j = i
      · subst hji
        cases hp'.symm.trans hq
        exact (hwake u hu).1
      · exact (hj.resolve_left hji) q u ((hothers j hji).symm.trans hq) hu

/-! ## The run -/

/-- The board of branches that are being served, on which the schedule has come from `b₀`. -/
structure Underway (T : Transport σ) (o : ClientOptions) (v : Service σ) (qs : Nat → Inquiry)
    (first : Nat) (finish : Instant) (b₀ b : Board σ) : Prop where
  reached : ∃ ms, b = b₀.moves T o ms ∧ Serving T o v qs first (b₀.served T o ms) b
  errands : b.errands = b₀.errands
  lined : Lined b
  soon : Soon v.lag finish b

/-- What is known of the server, the branches and the clock. -/
structure Terms (T : Transport σ) (o : ClientOptions) (v : Service σ) (qs : Nat → Inquiry)
    (first : Nat) (finish : Instant) (b₀ : Board σ) : Prop where
  prompt : Prompt T v
  lag : v.lag < o.requestTimeout
  lenient : Lenient o b₀.errands.length
  purpose : ∀ i, (qs i).purpose ≠ .opening
  room : first + b₀.errands.length ≤ v.bound
  clock : finish + o.requestTimeout < clockEnd

section Run

variable {first : Nat} {finish : Instant} {b₀ : Board σ}

/-- A poll keeps the branches under way. -/
theorem underway_of_poll (ht : Terms T o v qs first finish b₀)
    (hb : Underway T o v qs first finish b₀ b) (i : Nat) :
    Underway T o v qs first finish b₀ (poll T o b i) ∧ Nears v.lag i b (poll T o b i) := by
  obtain ⟨ms, hms, hserving⟩ := hb.reached
  have hclock : b.session.now + o.requestTimeout < clockEnd :=
    Nat.lt_of_le_of_lt (Nat.add_le_add_right
      (Nat.le_trans (Nat.le_add_right _ _) hb.soon.now) _) ht.clock
  obtain ⟨hgoes, hserving', hnears⟩ := serving_of_poll ht.prompt ht.lag
    (hb.errands ▸ ht.lenient) ht.purpose (hb.errands ▸ ht.room) hclock hserving i
  refine ⟨⟨⟨ms ++ [.poll i], ?_, ?_⟩, ?_, ?_, ?_⟩, hnears⟩
  · rw [moves_append, ← hms]
    rfl
  · rw [served_concat, ← hms]
    exact hserving'
  · exact (errands_of_nears hnears).trans hb.errands
  · exact lined_of_goes hserving.sane hb.lined hgoes
  · exact soon_of_nears hb.soon hnears

/-- Time passes to an instant at which a branch goes on. -/
theorem underway_of_clock (ht : Terms T o v qs first finish b₀)
    (hb : Underway T o v qs first finish b₀ b) {p : Place σ} {u : Instant}
    (hp : b.placeOf i = some p) (hu : p.wake = some u) (hnow : b.session.now ≤ u) :
    Underway T o v qs first finish b₀ (b.setNow u) := by
  obtain ⟨ms, hms, hserving⟩ := hb.reached
  refine ⟨⟨ms ++ [.clock u], ?_, ?_⟩, hb.errands, hb.lined, hb.soon.wakes i p u hp hu,
    hb.soon.wakes⟩
  · rw [moves_append, ← hms]
    rfl
  · rw [served_concat, ← hms]
    exact (List.append_nil (b₀.served T o ms)).symm ▸ serving_of_clock ht.prompt hserving hnow

/-- No branch stops the others. -/
theorem not_stops_of_serving {given : List (Nat × Option Nat)}
    (hb : Serving T o v qs first given b) (i : Nat) :
    (b.tasks[i]?).any (Task.stops .all) = false := by
  cases hi : b.tasks[i]? with
  | none => rfl
  | some t =>
      have hfits := hb.fits i _ (placeOf_of_task hi)
      rw [Option.any_some, Task.stops]
      cases hp : t.place with
      | ended e =>
          rw [hp] at hfits
          obtain ⟨r, _, _, rfl⟩ := hfits
          cases (qs i).gives r <;> rfl
      | pausing | resting | queued | writing | reading | stopping => rfl

/-- A round goes over all branches, and gets something done if a branch is ready; after it
every branch has to let time pass, or is handed the connection. -/
theorem underway_of_pass (ht : Terms T o v qs first finish b₀) (is : List Nat) :
    ∀ {b : Board σ}, Underway T o v qs first finish b₀ b →
      (Board.pass T o .all is b).2 = false ∧
      Underway T o v qs first finish b₀ (Board.pass T o .all is b).1 ∧
      (Board.pass T o .all is b).1.left ≤ b.left ∧
      ((∃ i ∈ is, b.ready i) → (Board.pass T o .all is b).1.left < b.left) ∧
      ∀ i, i ∈ is ∨ b.Idle i → (Board.pass T o .all is b).1.Idle i := by
  induction is with
  | nil =>
      intro b hb
      exact ⟨rfl, hb, Nat.le_refl _, by simp, fun i hi => hi.resolve_left List.not_mem_nil⟩
  | cons k rest ih =>
      intro b hb
      obtain ⟨hb', hnears⟩ := underway_of_poll ht hb k
      obtain ⟨_, _, hserving⟩ := hb'.reached
      obtain ⟨hflag, hb'', hle, hlt, hidle⟩ := ih hb'
      simp only [Board.pass, not_stops_of_serving hserving k, Bool.false_eq_true, if_false]
      refine ⟨hflag, hb'', ?_, ?_, ?_⟩
      · rcases left_of_nears hnears with ⟨heq, _⟩ | hless
        · rw [heq] at hle ⊢
          exact hle
        · exact Nat.le_trans hle (Nat.le_of_lt hless)
      · rintro ⟨i, hi, hready⟩
        rcases left_of_nears hnears with ⟨heq, hnot⟩ | hless
        · -- what the first branch does not do is left to the others
          rcases List.mem_cons.mp hi with rfl | hi
          · exact absurd hready hnot
          · rw [heq] at hlt ⊢
            exact hlt ⟨i, hi, hready⟩
        · exact Nat.lt_of_le_of_lt hle hless
      · intro i hi
        refine hidle i ?_
        rcases hi with hi | hi
        · rcases List.mem_cons.mp hi with rfl | hi
          · exact .inr (idle_of_nears hnears (.inl rfl))
          · exact .inl hi
        · exact .inr (idle_of_nears hnears (.inr hi))

/-- Where not all have ended and nobody is handed the connection, time alone takes some branch
on. -/
theorem wakes_of_underway (hb : Underway T o v qs first finish b₀ b)
    (hover : b.handedOver ≠ true) (hall : b.tasks.all Task.isEnded ≠ true) :
    ∃ i p u, b.placeOf i = some p ∧ p.wake = some u := by
  obtain ⟨ms, _, hserving⟩ := hb.reached
  cases hholder : b.holder with
  | some j =>
      -- the holder waits for the transport
      obtain ⟨p, hp, hstate⟩ := hserving.sane.holds j hholder
      have hfits := hserving.fits j p hp
      cases p with
      | writing why s =>
          obtain ⟨_, _, ends, _, hends, _⟩ := hfits
          exact ⟨j, _, ends, hp, hends⟩
      | reading purpose w => exact ⟨j, _, w.ends, hp, rfl⟩
      | queued op => exact absurd (handedOver_iff.mpr ⟨j, op, hholder, hp⟩) hover
      | stopping => exact hfits.elim
      | pausing | resting | ended => exact (hstate.elim id id).elim
  | none =>
      -- nobody is in line, so some branch is in its pause
      obtain ⟨t, ht, hnot⟩ : ∃ t ∈ b.tasks, ¬ Task.isEnded t = true := by
        simpa only [ne_eq, List.all_eq_true, not_forall, exists_prop] using hall
      obtain ⟨i, hi⟩ := List.mem_iff_getElem?.mp ht
      have hp : b.placeOf i = some t.place := placeOf_of_task hi
      have hfits := hserving.fits i _ hp
      cases hplace : t.place with
      | pausing u =>
          rw [hplace] at hp
          exact ⟨i, _, u, hp, rfl⟩
      | queued op =>
          rw [hplace] at hp
          rcases hb.lined i op hp with hi' | hmem
          · exact nomatch hholder.symm.trans hi'
          · rw [hserving.sane.idle hholder] at hmem
            exact absurd hmem List.not_mem_nil
      | writing | reading =>
          rw [hplace] at hp
          exact nomatch hholder.symm.trans (hserving.sane.waits i _ hp trivial)
      | resting | stopping =>
          rw [hplace] at hfits
          exact hfits.elim
      | ended e => exact absurd (by rw [Task.isEnded, hplace]) hnot

/-- Without a limit, a branch wakes when its place does. -/
theorem wake_of_unlimited {t : Task σ} (h : t.dropAt = none) : Task.wake t = t.place.wake := by
  rw [Task.wake, h]
  cases hp : t.place with
  | writing why s => cases hs : s.ends <;> simp [Place.wake, hs]
  | pausing | resting | queued | reading | stopping | ended => rfl

theorem wake_of_serving {given : List (Nat × Option Nat)} (hb : Serving T o v qs first given b)
    {i : Nat} {t : Task σ} (hi : b.tasks[i]? = some t) : Task.wake t = t.place.wake := by
  have he : b.errands[i]? = some (t.work, t.limit, t.dropAt) := by
    rw [errands, List.getElem?_map, hi]
    rfl
  obtain ⟨op, herrand, _⟩ := hb.errands i _ he
  exact wake_of_unlimited (congrArg (·.2.2) herrand)

/-- Where a branch wakes there is a next wake. -/
theorem nextWake_ne_none {given : List (Nat × Option Nat)}
    (hb : Serving T o v qs first given b) {i : Nat} {p : Place σ} {u : Instant}
    (hp : b.placeOf i = some p) (hu : p.wake = some u) : b.nextWake ≠ none := by
  intro hnone
  obtain ⟨t, hi, rfl⟩ := Option.map_eq_some_iff.mp hp
  have hmem : u ∈ b.tasks.filterMap Task.wake :=
    List.mem_filterMap.mpr ⟨t, List.mem_of_getElem? hi, (wake_of_serving hb hi).trans hu⟩
  rw [List.min?_eq_none_iff.mp hnone] at hmem
  exact absurd hmem List.not_mem_nil

/-- The next wake is that of a branch. -/
theorem place_of_nextWake {given : List (Nat × Option Nat)}
    (hb : Serving T o v qs first given b) {wake : Instant} (hnext : b.nextWake = some wake) :
    ∃ i p, b.placeOf i = some p ∧ p.wake = some wake := by
  obtain ⟨t, ht, htwake⟩ := List.mem_filterMap.mp (List.min?_mem hnext)
  obtain ⟨i, hi⟩ := List.mem_iff_getElem?.mp ht
  exact ⟨i, t.place, placeOf_of_task hi, (wake_of_serving hb hi).symm.trans htwake⟩

/-- A round ends the run, or leads to a board on which a branch is ready. -/
theorem run_succ (ht : Terms T o v qs first finish b₀)
    (hb : Underway T o v qs first finish b₀ b) (fuel : Nat) :
    (∃ b', Underway T o v qs first finish b₀ b' ∧ b'.tasks.all Task.isEnded = true ∧
      Board.run T o .all none (fuel + 1) b = (dropAll T b', false)) ∨
    ∃ b', Underway T o v qs first finish b₀ b' ∧ (∃ i, b'.ready i) ∧ b'.left ≤ b.left ∧
      ((∃ i, b.ready i) → b'.left < b.left) ∧
      Board.run T o .all none (fuel + 1) b = Board.run T o .all none fuel b' := by
  obtain ⟨hflag, hb', hle, hlt, hidle⟩ :=
    underway_of_pass ht (List.range b.tasks.length) hb
  have hless : (∃ i, b.ready i) →
      (Board.pass T o .all (List.range b.tasks.length) b).1.left < b.left := by
    rintro ⟨i, hready⟩
    refine hlt ⟨i, List.mem_range.mpr ?_, hready⟩
    obtain ⟨p, hp, _⟩ := hready
    have hi : i < b.errands.length := placeOf_isSome_iff.mp (by rw [hp]; rfl)
    rwa [errands, List.length_map] at hi
  have hrest : ∀ i, (Board.pass T o .all (List.range b.tasks.length) b).1.Idle i := by
    intro i
    by_cases hi : i < b.tasks.length
    · exact hidle i (.inl (List.mem_range.mpr hi))
    · refine hidle i (.inr fun p u hp _ => ?_)
      rw [placeOf, List.getElem?_eq_none (Nat.not_lt.mp hi)] at hp
      cases hp
  generalize hpass : Board.pass T o .all (List.range b.tasks.length) b = passed
    at hflag hb' hle hless hrest
  obtain ⟨b', stopped⟩ := passed
  dsimp only at hflag hb' hle hless hrest
  subst hflag
  obtain ⟨ms, _, hserving⟩ := hb'.reached
  rw [run_of_pass fuel hpass]
  cases hseq : b'.sequel none false with
  | done => exact .inl ⟨b', hb', sequel_eq_done_iff.mp hseq, rfl⟩
  | cut clock =>
      -- who has not ended waits for an instant, unless it was handed the connection
      obtain ⟨_, hover, hnone⟩ := stuck_of_cut hseq
      obtain ⟨_, hgoes⟩ := going_of_sequel hseq (by simp)
      obtain ⟨i, p, u, hp, hu⟩ :=
        wakes_of_underway hb' (Bool.eq_false_iff.mp hover) (Bool.eq_false_iff.mp hgoes)
      exact absurd hnone (nextWake_ne_none hserving hp hu)
  | again clock =>
      refine .inr ⟨b'.clockTo clock, ?_⟩
      rcases again_cases hseq with ⟨rfl, hover⟩ | ⟨wake, rfl, hnext⟩
      · obtain ⟨i, op, hi, hp⟩ := handedOver_iff.mp hover
        exact ⟨hb', ⟨i, .queued op, hp, hi⟩, hle, hless, rfl⟩
      · obtain ⟨j, q, hq, hwake⟩ := place_of_nextWake hserving hnext
        have hlater : b'.session.now < wake := hrest j q wake hq hwake
        exact ⟨underway_of_clock ht hb' hq hwake (Nat.le_of_lt hlater),
          ⟨j, ready_of_wake (b := b'.setNow wake) hq hwake (Nat.le_refl wake)⟩, hle, hless, rfl⟩

/-- With a round for everything that is left to do the run ends when all have ended. -/
theorem run_of_ready (ht : Terms T o v qs first finish b₀) (fuel : Nat) :
    ∀ {b : Board σ}, Underway T o v qs first finish b₀ b → (∃ i, b.ready i) → b.left < fuel →
      ∃ b', Underway T o v qs first finish b₀ b' ∧ b'.tasks.all Task.isEnded = true ∧
        Board.run T o .all none fuel b = (dropAll T b', false) := by
  induction fuel with
  | zero => exact fun _ _ hfuel => absurd hfuel (Nat.not_lt_zero _)
  | succ fuel ih =>
      intro b hb hready hfuel
      rcases run_succ ht hb fuel with hdone | ⟨b', hb', hready', _, hlt, hrun⟩
      · exact hdone
      · rw [hrun]
        exact ih hb' hready' (Nat.lt_of_lt_of_le (hlt hready) (Nat.le_of_lt_succ hfuel))

/-- What has ended is not dropped. -/
theorem dropAll_of_ended (T : Transport σ) (hall : b.tasks.all Task.isEnded = true) :
    dropAll T b = b := by
  have hstays : ∀ i, dropAt T b i = b := by
    intro i
    rw [dropAt]
    cases hi : b.tasks[i]? with
    | none => rfl
    | some t =>
        have hended := List.all_eq_true.mp hall t (List.mem_of_getElem? hi)
        cases hp : t.place with
        | ended e => simp only [drop, hp]
        | _ => simp [Task.isEnded, hp] at hended
  have hfold : ∀ is : List Nat, is.foldl (dropAt T) b = b := by
    intro is
    induction is with
    | nil => rfl
    | cons i rest ih => rw [List.foldl_cons, hstays i, ih]
  rw [dropAll_eq, hfold]

end Run

/-! ## Branches side by side -/

theorem Place.left_le (p : Place σ) : p.left ≤ 4 := by
  cases p with
  | pausing => exact Nat.le_refl 4
  | queued => exact (by decide : 3 ≤ 4)
  | writing => exact (by decide : 2 ≤ 4)
  | reading | resting | stopping => exact (by decide : 1 ≤ 4)
  | ended => exact Nat.zero_le 4

theorem Board.left_le (b : Board σ) : b.left ≤ 4 * b.errands.length := by
  have hone : ∀ i ∈ Finset.range b.errands.length,
      ((b.placeOf i).map Place.left).getD 0 ≤ 4 := by
    intro i _
    cases hp : b.placeOf i with
    | none => exact Nat.zero_le 4
    | some p => exact p.left_le
  calc b.left ≤ ∑ _i ∈ Finset.range b.errands.length, 4 := Finset.sum_le_sum hone
    _ = 4 * b.errands.length := by
      rw [Finset.sum_const_nat fun _ _ => rfl, Finset.card_range, Nat.mul_comm]

theorem errands_start (s : Session σ) (branches : List Branch) :
    (Board.start s branches).errands.length = branches.length := by
  simp [Board.errands, Board.start]

/-- Branches at their start: the first of them goes on soon. -/
theorem soon_start {lag latest : Duration} {s : Session σ} {branches : List Branch}
    (hlatest : ∀ br ∈ branches, br.pause ≤ latest) :
    Soon lag (s.now + latest + lag * (4 * branches.length)) (Board.start s branches) := by
  have hleft : lag * (Board.start s branches).left ≤ lag * (4 * branches.length) :=
    Nat.mul_le_mul_left lag (errands_start s branches ▸ (Board.start s branches).left_le)
  constructor
  · exact Nat.add_le_add (Nat.le_add_right _ _) hleft
  · intro i p u hp hu
    obtain ⟨t, hi, rfl⟩ := Option.map_eq_some_iff.mp hp
    obtain ⟨br, hbr, rfl⟩ := List.mem_map.mp (List.mem_of_getElem? hi)
    cases hu
    exact Nat.add_le_add (Nat.add_le_add_left (hlatest br hbr) _) hleft

/-- Branches that make inquiries on an open session with a quiet server are all served. -/
theorem underway_of_gather {s : Session σ} {branches : List Branch} {latest : Duration}
    (hv : Prompt T v) (hlag : v.lag < o.requestTimeout) (hlenient : Lenient o branches.length)
    (hq : ∀ i, (qs i).purpose ≠ .opening) (hstate : s.conn.state = .ready)
    (hquiet : v.quiet s.conn.lastId s.now s.wire)
    (hroom : s.conn.lastId + branches.length ≤ v.bound)
    (hbranches : ∀ i br, branches[i]? = some br → br.limit = none ∧
      ∃ op, br.work = .use op ∧ op.asks o = some (qs i))
    (hlatest : ∀ br ∈ branches, br.pause ≤ latest)
    (hclock : s.now + latest + v.lag * (4 * branches.length) + o.requestTimeout < clockEnd) :
    ∃ b, Underway T o v qs s.conn.lastId (s.now + latest + v.lag * (4 * branches.length))
        (Board.start s branches) b ∧ b.tasks.all Task.isEnded = true ∧
      gather T o .all none branches s = (b.session, some (b.tasks.map ending)) := by
  have ht : Terms T o v qs s.conn.lastId (s.now + latest + v.lag * (4 * branches.length))
      (Board.start s branches) :=
    ⟨hv, hlag, by rw [errands_start]; exact hlenient, hq, by rw [errands_start]; exact hroom,
      hclock⟩
  have hstart : Underway T o v qs s.conn.lastId
      (s.now + latest + v.lag * (4 * branches.length)) (Board.start s branches)
      (Board.start s branches) :=
    { reached := ⟨[], rfl, serving_start hstate hquiet hbranches⟩
      errands := rfl
      lined := fun i op hp => by
        obtain ⟨_, hw⟩ := placeOf_start hp
        exact nomatch hw
      soon := soon_start hlatest }
  have hleft : (Board.start s branches).left ≤ 4 * branches.length :=
    errands_start s branches ▸ (Board.start s branches).left_le
  have hrun : ∃ b, Underway T o v qs s.conn.lastId
      (s.now + latest + v.lag * (4 * branches.length)) (Board.start s branches) b ∧
      b.tasks.all Task.isEnded = true ∧
      Board.run T o .all none (passBound branches.length) (Board.start s branches)
        = (dropAll T b, false) := by
    rcases run_succ ht hstart (8 * branches.length + 7) with hdone | ⟨b, hb, hready, hle, _, hrun⟩
    · exact hdone
    · rw [passBound, hrun]
      exact run_of_ready ht _ hb hready (by omega)
  obtain ⟨b, hb, hall, hrun⟩ := hrun
  refine ⟨b, hb, hall, ?_⟩
  rw [gather_eq, hrun, dropAll_of_ended T hall]
  rfl

section Outcomes

variable {first : Nat} {given : List (Nat × Option Nat)}

/-- Every branch that has ended has got the answer to its own request. -/
theorem answer_of_ended (hb : Serving T o v qs first given b) {e : Ending}
    (hp : b.placeOf i = some (.ended e)) :
    ∃ r, (i, some r.id) ∈ given ∧ v.replies (qs i) r ∧ e = .returned ((qs i).gives r) :=
  hb.fits i _ hp

/-- The ids of the requests are those behind the first. -/
theorem id_of_counts {last id : Nat} (hc : Counts first given last) (hi : (i, some id) ∈ given) :
    first < id ∧ id ≤ last := by
  have hmem : some id ∈ given.map (·.2) := List.mem_map_of_mem hi
  rw [hc.ids] at hmem
  obtain ⟨k, hk, hid⟩ := List.mem_map.mp hmem
  cases hid
  have hrange := List.mem_range'_1.mp hk
  have hlast := hc.last
  omega

/-- The ending of a branch, when all have ended. -/
theorem ended_of_all (hall : b.tasks.all Task.isEnded = true) (hi : i < b.errands.length) :
    ∃ e, b.placeOf i = some (.ended e) ∧ (b.tasks.map ending)[i]? = some e := by
  obtain ⟨p, hp⟩ := Option.isSome_iff_exists.mp (placeOf_isSome_iff.mpr hi)
  obtain ⟨t, ht, rfl⟩ := Option.map_eq_some_iff.mp hp
  have hended := List.all_eq_true.mp hall t (List.mem_of_getElem? ht)
  cases hplace : t.place with
  | ended e =>
      refine ⟨e, by rw [hp, hplace], ?_⟩
      rw [List.getElem?_map, ht, Option.map_some, ending, hplace]
  | _ => simp [Task.isEnded, hplace] at hended

/-- When all have ended, each has made its request. -/
theorem lastId_of_ended (hb : Serving T o v qs first given b)
    (hall : b.tasks.all Task.isEnded = true) :
    b.session.conn.lastId = first + b.errands.length := by
  have hsub : List.range b.errands.length ⊆ given.map (·.1) := by
    intro i hi
    obtain ⟨e, he, _⟩ := ended_of_all hall (List.mem_range.mp hi)
    obtain ⟨r, hr, _⟩ := answer_of_ended hb he
    exact List.mem_map_of_mem hr
  have hsup : given.map (·.1) ⊆ List.range b.errands.length := by
    intro i hi
    obtain ⟨p, hp, _⟩ := hb.started i hi
    exact List.mem_range.mpr (placeOf_isSome_iff.mp (by rw [hp]; rfl))
  have hle := (List.nodup_range.subperm hsub).length_le
  have hge := (hb.counts.once.subperm hsup).length_le
  have hlast := hb.counts.last
  simp only [List.length_range, List.length_map] at hle hge
  omega

end Outcomes

end Conformance
