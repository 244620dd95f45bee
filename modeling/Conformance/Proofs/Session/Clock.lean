/-
Conformance — programs and the clock.

The clock never goes back, and under a deadline it never goes beyond it
(`clock_of_program`).  A deadline that a program does not meet makes no difference:
what ends by itself under a deadline does the same without one (`unlimited_of_ended`),
and what ends before the deadline without one does the same under it
(`limited_of_early`).  At the very instant of the deadline either can come first.

The clock goes on to the next instant at which a branch goes on or is dropped, and
that is never one that has passed: after a round every branch has to let time pass
(`Paused`).
-/
import Conformance.Proofs.Session.Completion

namespace Conformance

open Board

variable {σ : Type} {T : Transport σ} {o : ClientOptions} {mode : Gather}
variable {b b' : Board σ} {i j : Nat}

/-! ## Time does not pass while branches are polled -/

theorem now_of_goes (h : Goes T o i b b') : b'.session.now = b.session.now := by
  cases h with
  | still | rests | rested | refused | linesUp => rfl
  | enters _ _ hd | handed _ _ hd | wrote _ _ hd | read _ _ hd | stopped _ _ hd =>
      exact (now_of_lands (lands_of_driven hd)).trans rfl

theorem now_of_drops (h : Drops i b b') : b'.session.now = b.session.now := by
  cases h with
  | gone | idle | leaves | letsGo => rfl

theorem now_of_poll (b : Board σ) (i : Nat) : (poll T o b i).session.now = b.session.now := by
  rcases move_cases T o b (.poll i) with ⟨_, b₁, _, h, heq | hdrop⟩ | ⟨_, hi, _⟩ | ⟨_, hi, _⟩
  · exact (congrArg (·.session.now) heq).trans (now_of_goes h)
  · exact (now_of_drops hdrop).trans (now_of_goes h)
  · exact nomatch hi
  · exact nomatch hi

theorem now_of_dropAt (b : Board σ) (i : Nat) : (dropAt T b i).session.now = b.session.now := by
  rw [dropAt]
  split
  · exact now_of_drops (drop_drops T ‹_›)
  · rfl

theorem now_of_dropAll (b : Board σ) : (dropAll T b).session.now = b.session.now := by
  have hfold : ∀ (is : List Nat) (b : Board σ),
      (is.foldl (dropAt T) b).session.now = b.session.now := by
    intro is
    induction is with
    | nil => exact fun _ => rfl
    | cons i rest ih => exact fun b => (ih (dropAt T b i)).trans (now_of_dropAt b i)
  rw [dropAll_eq, hfold]

theorem now_of_pass (mode : Gather) (is : List Nat) :
    ∀ b : Board σ, (Board.pass T o mode is b).1.session.now = b.session.now := by
  induction is with
  | nil => exact fun _ => rfl
  | cons i rest ih =>
      intro b
      simp only [Board.pass]
      split
      · exact now_of_poll b i
      · exact (ih _).trans (now_of_poll b i)

/-! ## After a round time has to pass -/

/-- Time has to pass before branch `i` goes on, or is dropped at its limit. -/
def Board.Paused (b : Board σ) (i : Nat) : Prop :=
  ∀ t u, b.tasks[i]? = some t → Task.wake t = some u → b.session.now < u

theorem wake_of_ended {t : Task σ} {e : Ending} (h : t.place = .ended e) : Task.wake t = none := by
  rw [Task.wake, h]

/-- A branch wakes where its place does, or at its limit. -/
theorem wake_cases {t : Task σ} {u : Instant} (h : Task.wake t = some u) :
    t.place.wake = some u ∨ t.dropAt = some u := by
  obtain ⟨place, work, limit, dropAt⟩ := t
  have hmin : ∀ {a d : Nat}, min a d = u → a = u ∨ d = u := by
    intro a d h
    omega
  cases place with
  | ended e => exact nomatch h
  | queued op => exact .inr h
  | pausing | resting | reading | stopping =>
      cases dropAt with
      | none => exact .inl h
      | some d => exact (hmin (Option.some.inj h)).imp (congrArg some) (congrArg some)
  | writing why s =>
      cases hends : s.ends <;> cases dropAt <;> simp_all [Task.wake, Place.wake]

/-- A branch that is driven stops where it has to let time pass. -/
theorem idle_of_driven {c : Connection} {p : Progress} (hd : Driven T o i b c p b')
    (hthere : (b.placeOf i).isSome) : b'.Idle i := by
  have hself : ∀ {b₁ : Board σ} {q : Place σ}, b₁.placeOf i = b.placeOf i →
      (∀ u, q.wake = some u → b₁.session.now < u) → (b₁.setPlace i q).Idle i := by
    intro b₁ q hsame hq p u hp hu
    cases (placeOf_setPlace_self q (hsame ▸ hthere)).symm.trans hp
    exact hq u hu
  induction hd with
  | ended | told | overflows => exact hself (q := .ended _) rfl nofun
  | reads _ hlater =>
      refine hself rfl fun u hu => ?_
      cases hu
      exact hlater
  | writes hlater =>
      refine hself rfl fun u hu => ?_
      rw [Place.wake] at hu
      rw [hu, Option.any_some, decide_eq_false_iff_not] at hlater
      exact Nat.not_le.mp hlater
  | stops hlater =>
      refine hself rfl fun u hu => ?_
      cases hu
      exact hlater
  | read _ _ _ _ ih | wrote _ _ _ ih | stopped _ _ _ ih => exact ih hthere hself

theorem idle_of_goes (h : Goes T o i b b') : b'.Idle i := by
  have hset : ∀ {b₁ : Board σ} {p : Place σ}, (∀ u, p.wake = some u → b₁.session.now < u) →
      (b₁.setPlace i p).Idle i := by
    intro b₁ p hp q u hq hu
    cases eq_of_setPlace hq
    exact hp u hu
  have hthere : ∀ {x : Option (Place σ)} {p : Place σ}, x = some p → x.isSome :=
    fun hp => hp ▸ rfl
  cases h with
  | still hnot => exact idle_of_not_ready hnot
  | @rests _ p _ _ _ hpause hfree hrest _ =>
      refine hset fun u hu => ?_
      cases p with
      | pausing u => exact absurd rfl (hpause u)
      | resting u =>
          cases hu
          exact hrest u rfl
      | writing | reading | stopping => exact absurd trivial hfree.1
      | queued | ended => exact nomatch hu
  | rested | refused => exact hset nofun
  | linesUp => exact hset (p := .queued _) nofun
  | enters hasks _ hd =>
      obtain ⟨u, hp⟩ := pausing_of_asks hasks
      exact idle_of_driven hd (hthere ((placeOf_begun b i i).trans hp))
  | handed hp _ hd | wrote hp _ hd | read hp _ hd | stopped hp _ hd =>
      exact idle_of_driven hd (hthere hp)

theorem task_setTask_ne (b : Board σ) (f : Task σ → Task σ) (hj : j ≠ i) :
    (b.setTask i f).tasks[j]? = b.tasks[j]? :=
  List.getElem?_modify_ne f b.tasks (Ne.symm hj)

theorem task_of_lands (h : Lands i b b') (hj : j ≠ i) : b'.tasks[j]? = b.tasks[j]? := by
  cases h with
  | @waits s p => exact task_setTask_ne { b with session := s } _ hj
  | @ends s e => exact task_setTask_ne { b with session := s } _ hj

theorem task_of_goes (h : Goes T o i b b') (hj : j ≠ i) : b'.tasks[j]? = b.tasks[j]? := by
  have hbegun : (b.begun i).tasks[j]? = b.tasks[j]? := task_setTask_ne b _ hj
  cases h with
  | still => rfl
  | rests | refused => exact (task_setTask_ne (b.begun i) _ hj).trans hbegun
  | linesUp =>
      exact (task_setTask_ne { b.begun i with line := b.line ++ [i] } _ hj).trans hbegun
  | rested => exact task_setTask_ne b _ hj
  | enters _ _ hd => exact (task_of_lands (lands_of_driven hd) hj).trans hbegun
  | handed _ _ hd | wrote _ _ hd | read _ _ hd | stopped _ _ hd =>
      exact (task_of_lands (lands_of_driven hd) hj).trans rfl

theorem task_of_drops (h : Drops i b b') (hj : j ≠ i) : b'.tasks[j]? = b.tasks[j]? := by
  cases h with
  | gone => rfl
  | idle | leaves => exact task_setTask_ne b _ hj
  | @letsGo p w => exact task_setTask_ne (b.setWire w) _ hj

/-- A poll of one branch leaves the tasks of the others alone. -/
theorem task_of_poll (b : Board σ) (hj : j ≠ i) : (poll T o b i).tasks[j]? = b.tasks[j]? := by
  rcases move_cases T o b (.poll i) with ⟨_, b₁, hi, h, heq | hdrop⟩ | ⟨_, hi, _⟩ | ⟨_, hi, _⟩
  · cases hi
    exact (congrArg (·.tasks[j]?) heq).trans (task_of_goes h hj)
  · cases hi
    exact (task_of_drops hdrop hj).trans (task_of_goes h hj)
  · exact nomatch hi
  · exact nomatch hi

/-- A branch that has been polled has to let time pass. -/
theorem paused_of_poll (b : Board σ) (i : Nat) : (poll T o b i).Paused i := by
  have hnow : (poll T o b i).session.now = b.session.now := now_of_poll b i
  intro t u ht hu
  rw [hnow]
  cases hi : b.tasks[i]? with
  | none =>
      simp only [poll, hi] at ht
      cases ht
  | some t₀ =>
      have hgoes := goOn_goes T o hi
      cases hi' : (goOn T o i t₀ b).tasks[i]? with
      | none =>
          simp only [poll, hi, hi'] at ht
          cases ht
      | some t₁ =>
          simp only [poll, hi, hi'] at ht
          split at ht
          · -- it is dropped, and what has ended does not wake
            obtain ⟨e, he⟩ := (places_of_drops (drop_drops T hi')).1 t.place (placeOf_of_task ht)
            cases (wake_of_ended he).symm.trans hu
          · rename_i hlimit
            cases hi'.symm.trans ht
            rw [← now_of_goes hgoes]
            rcases wake_cases hu with hplace | hdrop
            · exact idle_of_goes hgoes t.place u (placeOf_of_task hi') hplace
            · rw [hdrop, Option.any_some, decide_eq_true_eq] at hlimit
              exact Nat.not_le.mp hlimit

/-- A round that no branch stops leaves every branch paused that it goes over. -/
theorem paused_of_pass (is : List Nat) : ∀ b : Board σ, (Board.pass T o mode is b).2 = false →
    ∀ i, i ∈ is ∨ b.Paused i → (Board.pass T o mode is b).1.Paused i := by
  induction is with
  | nil => exact fun b _ i hi => hi.resolve_left List.not_mem_nil
  | cons k rest ih =>
      intro b hflag i hi
      simp only [Board.pass] at hflag ⊢
      split at hflag
      · cases hflag
      · rename_i hgoes
        rw [if_neg hgoes]
        refine ih _ hflag i ?_
        by_cases hik : i = k
        · rw [hik]
          exact .inr (paused_of_poll b k)
        · rcases hi with hi | hi
          · exact .inl ((List.mem_cons.mp hi).resolve_left hik)
          · refine .inr fun t u ht hu => ?_
            rw [now_of_poll]
            exact hi t u ((task_of_poll b hik).symm.trans ht) hu

/-- The instant to which the clock goes on after a round has not passed. -/
theorem now_lt_wake (mode : Gather) {b : Board σ}
    (hflag : (Board.pass T o mode (List.range b.tasks.length) b).2 = false)
    {wake : Instant}
    (hwake : (Board.pass T o mode (List.range b.tasks.length) b).1.nextWake = some wake) :
    (Board.pass T o mode (List.range b.tasks.length) b).1.session.now < wake := by
  obtain ⟨t, ht, hu⟩ := List.mem_filterMap.mp (List.min?_mem hwake)
  obtain ⟨i, hi⟩ := List.mem_iff_getElem?.mp ht
  refine paused_of_pass _ b hflag i ?_ t wake hi hu
  by_cases hlt : i < b.tasks.length
  · exact .inl (List.mem_range.mpr hlt)
  · refine .inr fun t' _ ht' => ?_
    rw [List.getElem?_eq_none (Nat.not_lt.mp hlt)] at ht'
    exact nomatch ht'

/-! ## Rounds -/

theorem setNow_self (b : Board σ) : b.setNow b.session.now = b := rfl

/-- What a round leads to, with a deadline `d` that has not passed and without one: the
branches are done; or nothing would wake them; or the next round starts, unless the
deadline is before that. -/
inductive Round (T : Transport σ) (o : ClientOptions) (mode : Gather) (fuel : Nat) (b : Board σ) :
    Prop
  | done (b' : Board σ) : b'.session.now = b.session.now →
      (∀ deadline, Board.run T o mode deadline (fuel + 1) b = (dropAll T b', false)) →
      Round T o mode fuel b
  | stuck (b' : Board σ) : b'.session.now = b.session.now →
      Board.run T o mode none (fuel + 1) b = (dropAll T b', true) →
      (∀ d, b.session.now ≤ d →
        Board.run T o mode (some d) (fuel + 1) b = (dropAll T (b'.setNow d), true)) →
      Round T o mode fuel b
  | next (b' b'' : Board σ) : b.session.now ≤ b''.session.now →
      Board.run T o mode none (fuel + 1) b = Board.run T o mode none fuel b'' →
      (∀ d, b.session.now ≤ d →
        (b''.session.now ≤ d ∧
          Board.run T o mode (some d) (fuel + 1) b = Board.run T o mode (some d) fuel b'') ∨
        (d ≤ b''.session.now ∧
          Board.run T o mode (some d) (fuel + 1) b = (dropAll T (b'.setNow d), true))) →
      Round T o mode fuel b

theorem round_of_run (T : Transport σ) (o : ClientOptions) (mode : Gather) (fuel : Nat)
    (b : Board σ) : Round T o mode fuel b := by
  have hnow := now_of_pass (T := T) (o := o) mode (List.range b.tasks.length) b
  have hwake := now_lt_wake (T := T) (o := o) mode (b := b)
  generalize hpass : Board.pass T o mode (List.range b.tasks.length) b = passed at hnow hwake
  obtain ⟨b', stopped⟩ := passed
  dsimp only at hnow hwake
  have hrun : ∀ deadline, Board.run T o mode deadline (fuel + 1) b = _ := fun _ =>
    run_of_pass fuel hpass
  -- a deadline that is not ahead has come at this instant
  have hcome : ∀ d, b.session.now ≤ d → d ≤ b'.session.now → b' = b'.setNow d := by
    intro d hle hge
    rw [Nat.le_antisymm hge (hnow ▸ hle), setNow_self]
  cases hseq : b'.sequel none stopped with
  | done =>
      have hover : ∀ deadline, b'.sequel deadline stopped = .done := fun _ =>
        sequel_eq_done_iff.mpr (sequel_eq_done_iff.mp hseq)
      exact .done b' hnow fun deadline => by rw [hrun, hover]
  | cut clock =>
      obtain ⟨rfl, _⟩ := stuck_of_cut hseq
      refine .stuck b' hnow (by rw [hrun, hseq]; rfl) fun d hle => ?_
      rw [hrun, sequel_limited, hseq]
      dsimp only
      by_cases hd : d ≤ b'.session.now
      · rw [if_pos hd]
        exact congrArg (fun b => (dropAll T b, true)) (hcome d hle hd)
      · rw [if_neg hd]
        rfl
  | again clock =>
      have hlater : b'.session.now ≤ (b'.clockTo clock).session.now := by
        obtain ⟨hflag, _⟩ := going_of_sequel hseq (by simp)
        rcases again_cases hseq with ⟨rfl, _⟩ | ⟨wake, rfl, hnext⟩
        · exact Nat.le_refl _
        · exact Nat.le_of_lt (hwake hflag hnext)
      refine .next b' (b'.clockTo clock) (hnow ▸ hlater) (by rw [hrun, hseq]) fun d hle => ?_
      rw [hrun, sequel_limited, hseq]
      dsimp only
      by_cases hd : d ≤ b'.session.now
      · rw [if_pos hd]
        refine .inr ⟨Nat.le_trans hd hlater, ?_⟩
        exact congrArg (fun b => (dropAll T b, true)) (hcome d hle hd)
      · rw [if_neg hd]
        by_cases hlt : d < (b'.clockTo clock).session.now
        · rw [if_pos hlt]
          exact .inr ⟨Nat.le_of_lt hlt, rfl⟩
        · rw [if_neg hlt]
          exact .inl ⟨Nat.not_lt.mp hlt, rfl⟩

/-! ## Runs under a deadline -/

section Runs

variable {d : Instant}

theorem clock_of_unlimited (fuel : Nat) :
    ∀ b : Board σ, b.session.now ≤ (Board.run T o mode none fuel b).1.session.now := by
  induction fuel with
  | zero => exact fun b => Nat.le_of_eq (now_of_dropAll b).symm
  | succ fuel ih =>
      intro b
      cases round_of_run T o mode fuel b with
      | done b' hnow hrun =>
          rw [hrun, now_of_dropAll, hnow]
      | stuck b' hnow hrun =>
          rw [hrun, now_of_dropAll, hnow]
      | next b' b'' hle hrun =>
          rw [hrun]
          exact Nat.le_trans hle (ih b'')

/-- Under a deadline the clock goes on to it at most. -/
theorem clock_of_limited (mode : Gather) (fuel : Nat) : ∀ b : Board σ, b.session.now ≤ d →
    b.session.now ≤ (Board.run T o mode (some d) fuel b).1.session.now ∧
      (Board.run T o mode (some d) fuel b).1.session.now ≤ d := by
  have hdropped : ∀ {b b' : Board σ} {flag : Bool}, b.session.now ≤ b'.session.now →
      b'.session.now ≤ d → b.session.now ≤ (dropAll T b', flag).1.session.now ∧
        (dropAll T b', flag).1.session.now ≤ d := by
    intro b b' flag hle hd
    rw [now_of_dropAll]
    exact ⟨hle, hd⟩
  induction fuel with
  | zero => exact fun b hd => hdropped (Nat.le_refl _) hd
  | succ fuel ih =>
      intro b hd
      cases round_of_run T o mode fuel b with
      | done b' hnow hrun =>
          rw [hrun]
          exact hdropped (Nat.le_of_eq hnow.symm) (hnow ▸ hd)
      | stuck b' hnow _ hrun =>
          rw [hrun d hd]
          exact hdropped hd (Nat.le_refl d)
      | next b' b'' hle _ hrun =>
          rcases hrun d hd with ⟨hd', hrun⟩ | ⟨_, hrun⟩
          · rw [hrun]
            exact ⟨Nat.le_trans hle (ih b'' hd').1, (ih b'' hd').2⟩
          · rw [hrun]
            exact hdropped hd (Nat.le_refl d)

/-- What ends by itself under a deadline does the same without it. -/
theorem unlimited_of_run (fuel : Nat) : ∀ b : Board σ, b.session.now ≤ d →
    (Board.run T o mode (some d) fuel b).2 = false →
      Board.run T o mode none fuel b = Board.run T o mode (some d) fuel b := by
  induction fuel with
  | zero => exact fun b _ hflag => nomatch hflag
  | succ fuel ih =>
      intro b hd hflag
      cases round_of_run T o mode fuel b with
      | done b' _ hrun => rw [hrun, hrun]
      | stuck b' _ _ hrun =>
          rw [hrun d hd] at hflag
          exact nomatch hflag
      | next b' b'' _ hnone hrun =>
          rcases hrun d hd with ⟨hd', hrun⟩ | ⟨_, hrun⟩
          · rw [hrun] at hflag ⊢
            rw [hnone, ih b'' hd' hflag]
          · rw [hrun] at hflag
            exact nomatch hflag

/-- What ends by itself before the deadline does the same under it. -/
theorem limited_of_run (fuel : Nat) : ∀ b : Board σ,
    (Board.run T o mode none fuel b).2 = false →
      (Board.run T o mode none fuel b).1.session.now < d →
        Board.run T o mode (some d) fuel b = Board.run T o mode none fuel b := by
  induction fuel with
  | zero => exact fun b hflag => nomatch hflag
  | succ fuel ih =>
      intro b hflag hearly
      have hd : b.session.now ≤ d :=
        Nat.le_trans (clock_of_unlimited (fuel + 1) b) (Nat.le_of_lt hearly)
      cases round_of_run T o mode fuel b with
      | done b' _ hrun => rw [hrun, hrun]
      | stuck b' _ hrun =>
          rw [hrun] at hflag
          exact nomatch hflag
      | next b' b'' _ hnone hrun =>
          rw [hnone] at hflag hearly ⊢
          rcases hrun d hd with ⟨_, hrun⟩ | ⟨hlate, _⟩
          · rw [hrun, ih b'' hflag hearly]
          · have hbefore := Nat.lt_of_le_of_lt (clock_of_unlimited fuel b'') hearly
            exact absurd hbefore (Nat.not_lt.mpr hlate)

end Runs

/-! ## Branches side by side -/

section Gathers

variable {branches : List Branch} {s s' : Session σ} {d : Instant} {endings : List Ending}

theorem clock_of_gather (mode : Gather) (deadline : Option Instant) (branches : List Branch) (s : Session σ)
    (hd : ∀ d, deadline = some d → s.now ≤ d) :
    s.now ≤ (gather T o mode deadline branches s).1.now ∧
      ∀ d, deadline = some d → (gather T o mode deadline branches s).1.now ≤ d := by
  rw [gather_eq]
  cases deadline with
  | none => exact ⟨clock_of_unlimited _ (Board.start s branches), nofun⟩
  | some d =>
      have hclock := clock_of_limited (T := T) (o := o) mode (passBound branches.length) (Board.start s branches) (hd d rfl)
      refine ⟨hclock.1, fun d' hd' => ?_⟩
      cases hd'
      exact hclock.2

theorem flag_of_gather {deadline : Option Instant}
    (h : gather T o mode deadline branches s = (s', some endings)) :
    (Board.run T o mode deadline (passBound branches.length) (Board.start s branches)).2
      = false := by
  rw [gather_eq] at h
  cases hflag : (Board.run T o mode deadline (passBound branches.length)
      (Board.start s branches)).2 with
  | false => rfl
  | true =>
      simp only [hflag, if_true] at h
      exact nomatch h

theorem unlimited_of_gather (hd : s.now ≤ d)
    (h : gather T o mode (some d) branches s = (s', some endings)) :
    gather T o mode none branches s = (s', some endings) := by
  have hflag := flag_of_gather h
  rw [gather_eq] at h ⊢
  rw [unlimited_of_run _ (Board.start s branches) hd hflag]
  exact h

theorem limited_of_gather (h : gather T o mode none branches s = (s', some endings))
    (hearly : s'.now < d) : gather T o mode (some d) branches s = (s', some endings) := by
  have hflag := flag_of_gather h
  rw [gather_eq] at h ⊢
  rw [limited_of_run _ (Board.start s branches) hflag ((congrArg (·.1.now) h).trans_lt hearly)]
  exact h

end Gathers

/-! ## Programs -/

namespace Program

variable {α : Type} {s s' : Session σ} {d : Instant} {e : End α}

/-- The clock never goes back, nor beyond a deadline that has not passed. -/
theorem clock_of_program (deadline : Option Instant) (p : Program α) : ∀ s : Session σ,
    (∀ d, deadline = some d → s.now ≤ d) →
      s.now ≤ (p.run T o deadline s).1.now ∧
        ∀ d, deadline = some d → (p.run T o deadline s).1.now ≤ d := by
  induction p with
  | done a => exact fun s hd => ⟨Nat.le_refl _, hd⟩
  | crash m => exact fun s hd => ⟨Nat.le_refl _, hd⟩
  | sleep t next ih =>
      intro s hd
      have hlater : (∀ d, deadline = some d → s.now + t ≤ d) →
          s.now ≤ (next.run T o deadline { s with now := s.now + t }).1.now ∧
            ∀ d, deadline = some d →
              (next.run T o deadline { s with now := s.now + t }).1.now ≤ d := by
        intro hd'
        obtain ⟨hle, hge⟩ := ih { s with now := s.now + t } hd'
        exact ⟨Nat.le_trans (Nat.le_add_right _ _) hle, hge⟩
      simp only [run]
      cases deadline with
      | none =>
          refine hlater fun d hd' => ?_
          cases hd'
      | some d =>
          dsimp only
          split
          · refine ⟨Nat.le_max_left _ _, fun d' hd' => ?_⟩
            cases hd'
            exact Nat.max_le.mpr ⟨hd d rfl, Nat.le_refl d⟩
          · refine hlater fun d' hd' => ?_
            cases hd'
            exact Nat.not_lt.mp ‹_›
  | clock next ih => exact fun s hd => ih s.now s hd
  | gather mode branches next ih =>
      intro s hd
      have hclock := clock_of_gather (T := T) (o := o) mode deadline branches s hd
      rw [run]
      generalize Conformance.gather T o mode deadline branches s = gathered at hclock ⊢
      obtain ⟨s', endings⟩ := gathered
      cases endings with
      | none => exact hclock
      | some endings =>
          dsimp only
          cases crashIn endings with
          | some m => exact hclock
          | none =>
              obtain ⟨hle, hge⟩ := ih endings s' hclock.2
              exact ⟨Nat.le_trans hclock.1 hle, hge⟩

/-- What ends by itself under a deadline does the same without it. -/
theorem unlimited_of_ended (p : Program α) : ∀ {s : Session σ}, s.now ≤ d →
    p.run T o (some d) s = (s', e) → e ≠ .dropped → p.run T o none s = (s', e) := by
  induction p with
  | done a => exact fun _ h _ => h
  | crash m => exact fun _ h _ => h
  | sleep t next ih =>
      intro s hd h he
      simp only [run] at h ⊢
      split at h
      · cases h
        exact absurd rfl he
      · exact ih (s := { s with now := s.now + t }) (Nat.not_lt.mp ‹_›) h he
  | clock next ih => exact fun {s} hd h he => ih s.now hd h he
  | gather mode branches next ih =>
      intro s hd h he
      have hclock := clock_of_gather (T := T) (o := o) mode (some d) branches s
        fun d' hd' => by cases hd'; exact hd
      simp only [run] at h ⊢
      cases hgather : Conformance.gather T o mode (some d) branches s with
      | mk s₁ endings =>
          rw [hgather] at h hclock
          cases endings with
          | none =>
              cases h
              exact absurd rfl he
          | some endings =>
              rw [unlimited_of_gather hd hgather]
              dsimp only at h ⊢
              cases hcrash : crashIn endings with
              | some m =>
                  rw [hcrash] at h
                  exact h
              | none =>
                  rw [hcrash] at h
                  exact ih endings (hclock.2 d rfl) h he

/-- What ends by itself before the deadline does the same under it. -/
theorem limited_of_early (p : Program α) : ∀ {s : Session σ},
    p.run T o none s = (s', e) → e ≠ .dropped → s'.now < d → p.run T o (some d) s = (s', e) := by
  induction p with
  | done a => exact fun h _ _ => h
  | crash m => exact fun h _ _ => h
  | sleep t next ih =>
      intro s h he hearly
      have hclock := clock_of_program (T := T) (o := o) none next { s with now := s.now + t } nofun
      simp only [run] at h ⊢
      rw [h] at hclock
      have hwake : ¬ d < s.now + t :=
        Nat.not_lt.mpr (Nat.le_trans hclock.1 (Nat.le_of_lt hearly))
      rw [if_neg hwake]
      exact ih h he hearly
  | clock next ih => exact fun {s} h he hearly => ih s.now h he hearly
  | gather mode branches next ih =>
      intro s h he hearly
      simp only [run] at h ⊢
      cases hgather : Conformance.gather T o mode none branches s with
      | mk s₁ endings =>
          rw [hgather] at h
          cases endings with
          | none =>
              cases h
              exact absurd rfl he
          | some endings =>
              dsimp only at h
              cases hcrash : crashIn endings with
              | some m =>
                  rw [hcrash] at h
                  cases h
                  rw [limited_of_gather hgather hearly]
                  simp only [hcrash]
              | none =>
                  rw [hcrash] at h
                  dsimp only at h
                  have hclock := clock_of_program (T := T) (o := o) none (next endings) s₁ nofun
                  rw [h] at hclock
                  rw [limited_of_gather hgather (Nat.lt_of_le_of_lt hclock.1 hearly)]
                  simp only [hcrash]
                  exact ih endings h he hearly

end Program

end Conformance
