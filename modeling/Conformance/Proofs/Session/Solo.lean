/-
Conformance — a request by itself.

A request that shares the client with no other branch is polled at the very instant at
which its wait ends, and that instant is one that the clock can tell: a wait that would go
beyond it breaks down before it starts.  So a request is answered, if it is, while the clock
can tell (`early_of_request`), however long lines take to be written.

`Solo` is the invariant: where the branch stands, and that time has not gone past the end of
its wait.  Only the clock could break it, and the clock goes on to the next wake.
-/
import Conformance.Proofs.Session.Completion
import Conformance.Proofs.Session.Fatality
import Conformance.Proofs.Wait.Deadline

namespace Conformance

open Connection Board

variable {σ : Type}

/-- No success yet, and none without a response. -/
def Progress.Owes : Progress → Prop
  | .ended (.error _) => True
  | .next (.write (.request _ _) _) => True
  | .next (.await _ _) => True
  | _ => False

/-- Where a branch may stand at `now`: it has not been dropped, its wait has not ended yet, and
if it succeeded the clock could tell when. -/
def Place.Timely (now : Instant) : Place σ → Prop
  | .reading _ w => now ≤ w.ends ∧ w.ends < clockEnd
  | .ended (.returned (.ok _)) => now < clockEnd
  | .ended .cancelled => False
  | _ => True

section Phases

variable {op : Operation} {purpose : Purpose}

theorem owes_of_fail (c : Connection) (purpose : Purpose) (e : ClientError) :
    (c.fail purpose e).2.Owes := by
  rw [fail_eq]
  trivial

/-- A tool operation starts with its request, or fails. -/
theorem owes_of_begin (o : ClientOptions) (c : Connection) (hop : op.purpose = some purpose)
    (hopen : purpose ≠ .opening) : (c.begin o op).2.Owes := by
  cases op with
  | connect =>
      cases hop
      exact absurd rfl hopen
  | request | listTools =>
      cases hr : c.refusal with
      | some e =>
          simp only [begin, hr]
          trivial
      | none =>
          simp only [begin, hr]
          trivial
  | unprintable | notify | shutdown | ask => cases hop

theorem owes_of_written (c : Connection) (purpose : Purpose) (id : Nat)
    (r : Except ClientError Unit) : (c.written (.request purpose id) r).2.Owes := by
  cases r with
  | ok u => trivial
  | error e => exact owes_of_fail _ _ _

end Phases

section Boards

variable {T : Transport σ} {o : ClientOptions} {mode : Gather} {b b' : Board σ} {i : Nat}
variable {op : Operation} {purpose : Purpose}

/-- Whoever reads has seen that its wait ends before the clock does. -/
theorem timely_of_driven {c : Connection} {p : Progress} (hd : Driven T o i b c p b')
    (hp : b.session.now < clockEnd ∨ p.Owes) :
    ∀ q, b'.placeOf i = some q → q.Timely b.session.now := by
  induction hd with
  | @ended b c r =>
      intro q hq
      rw [eq_of_setPlace hq]
      cases r with
      | ok reply => exact hp.resolve_right id
      | error e => trivial
  | told =>
      intro q hq
      rw [eq_of_setPlace hq]
      exact hp.resolve_right id
  | overflows | writes | stops =>
      intro q hq
      rw [eq_of_setPlace hq]
      trivial
  | @reads b c purpose id hclock hlater =>
      intro q hq
      rw [eq_of_setPlace hq]
      exact ⟨Nat.le_of_lt hlater,
        Nat.lt_of_le_of_lt (ends_le_deadline (Nat.le_add_right _ _)) hclock⟩
  | read hclock _ _ _ ih =>
      exact ih (.inl (Nat.lt_of_le_of_lt (Nat.le_add_right _ _) hclock))
  | @wrote b b' c c' p' why line _ hwritten _ ih =>
      refine ih (hp.imp_right fun howes => ?_)
      cases why with
      | request purpose id =>
          have hnext := owes_of_written c purpose id (b.sending T line).result
          rwa [hwritten] at hnext
      | announcement | notification => exact howes.elim
  | stopped _ _ _ ih => exact ih (hp.imp_right False.elim)

/-- There is one branch, without a limit; `op` is its work, and it is in time. -/
structure Board.Solo (op : Operation) (b : Board σ) : Prop where
  alone : Alone op b
  errands : b.errands = [(.use op, none, none)]
  timely : ∀ i p, b.placeOf i = some p → p.Timely b.session.now

theorem begun_of_solo (hs : Solo op b) {p : Place σ} (hp : b.placeOf i = some p) :
    b.begun i = b := by
  cases hs.alone.only i p hp
  exact begun_of_unlimited (congrArg (·[0]?) hs.errands)

theorem solo_of_goes (hop : op.purpose = some purpose) (hopen : purpose ≠ .opening)
    (hs : Solo op b) (h : Goes T o i b b') : Solo op b' := by
  have hnow := now_of_goes h
  have halone := alone_of_goes hs.alone h
  have hdriven : ∀ {b₁ : Board σ} {c : Connection} {p : Progress} {q : Place σ},
      b.placeOf i = some q → Driven T o i b₁ c p b' → b₁.errands = b.errands →
      b₁.session.now = b.session.now → (b.session.now < clockEnd ∨ p.Owes) → Solo op b' := by
    intro b₁ c p q hq hd herrands hsame hp
    refine ⟨halone, (errands_of_lands (lands_of_driven hd)).trans (herrands.trans hs.errands),
      fun j p' hp' => ?_⟩
    cases hs.alone.only i q hq
    cases halone.only j p' hp'
    rw [hnow, ← hsame]
    exact timely_of_driven hd (hsame ▸ hp) p' hp'
  cases h with
  | still => exact hs
  | @rests _ p hp hu hnone =>
      cases hs.alone.only i _ hp
      exact nomatch hnone.symm.trans (asks_of_work hp hu hs.alone.work)
  | rested hp =>
      cases hs.alone.only i _ hp
      exact (hs.alone.place _ hp).elim
  | refused hasks hheld | linesUp hasks hheld =>
      obtain ⟨u, hp⟩ := pausing_of_asks hasks
      exact absurd (free_of_alone hs.alone hp) hheld
  | enters hasks _ hd =>
      obtain ⟨u, hp⟩ := pausing_of_asks hasks
      have hwork := work_of_asks hasks
      cases hs.alone.only i _ hp
      cases hwork.symm.trans hs.alone.work
      have hbegun : (b.begun 0).errands = b.errands := by rw [begun_of_solo hs hp]
      exact hdriven hp hd hbegun rfl (.inr (owes_of_begin o _ hop hopen))
  | handed hp _ hd =>
      have hqueued := hp
      cases hs.alone.only i _ hp
      cases hs.alone.place _ hqueued
      exact hdriven hp hd rfl rfl (.inr (owes_of_begin o _ hop hopen))
  | @wrote why _ _ hp _ hd =>
      have hwriting := hp
      cases hs.alone.only i _ hp
      obtain ⟨line, hfits⟩ := hs.alone.place _ hwriting
      cases why with
      | request => exact hdriven hp hd rfl rfl (.inr (owes_of_written _ _ _ _))
      | announcement =>
          obtain ⟨rfl, _⟩ := hfits
          cases hop
          exact absurd rfl hopen
      | notification =>
          obtain ⟨⟨n, rfl⟩, _⟩ := hfits
          exact nomatch hop
  | read hp _ hd =>
      obtain ⟨hends, hclock⟩ := hs.timely i _ hp
      exact hdriven hp hd rfl rfl (.inl (Nat.lt_of_le_of_lt hends hclock))
  | stopped hp _ hd =>
      have hstopping := hp
      cases hs.alone.only i _ hp
      obtain ⟨_, ⟨g, rfl⟩, _⟩ := hs.alone.place _ hstopping
      exact nomatch hop

theorem solo_of_poll (hop : op.purpose = some purpose) (hopen : purpose ≠ .opening)
    (hs : Solo op b) (i : Nat) : Solo op (poll T o b i) := by
  refine solo_of_goes hop hopen hs (goes_of_poll fun b' h e he => ?_)
  rw [(solo_of_goes hop hopen hs h).errands] at he
  rw [List.mem_singleton.mp (List.mem_of_getElem? he)]

/-- There is one task. -/
theorem task_of_solo (hs : Solo op b) : ∃ t, b.tasks = [t] ∧ t.dropAt = none := by
  obtain ⟨t, htasks, ht⟩ := List.map_eq_singleton_iff.mp hs.errands
  exact ⟨t, htasks, congrArg (·.2.2) ht⟩

/-- A branch that stops the others is the last to end, when there are none. -/
theorem ended_of_stops (hs : Solo op b) (h : (b.tasks[i]?).any (Task.stops mode) = true) :
    b.tasks.all Task.isEnded = true := by
  obtain ⟨t, htasks, _⟩ := task_of_solo hs
  rw [Option.any_eq_true] at h
  obtain ⟨t', hi, hstops⟩ := h
  rw [htasks] at hi ⊢
  cases List.mem_singleton.mp (List.mem_of_getElem? hi)
  rw [List.all_cons, List.all_nil, Bool.and_true, Task.isEnded]
  rw [Task.stops] at hstops
  split at hstops <;> simp_all

theorem solo_of_pass (hop : op.purpose = some purpose) (hopen : purpose ≠ .opening)
    (is : List Nat) : ∀ {b : Board σ}, Solo op b → Solo op (Board.pass T o mode is b).1 ∧
      ((Board.pass T o mode is b).2 = true →
        (Board.pass T o mode is b).1.tasks.all Task.isEnded = true) := by
  induction is with
  | nil => exact fun hs => ⟨hs, nofun⟩
  | cons i rest ih =>
      intro b hs
      have hpoll : Solo op (poll T o b i) := solo_of_poll hop hopen hs i
      simp only [Board.pass]
      split
      · exact ⟨hpoll, fun _ => ended_of_stops hpoll ‹_›⟩
      · exact ih hpoll

/-- The clock does not go on past the end of a wait. -/
theorem solo_of_clock {wake : Instant} (hs : Solo op b)
    (hgoes : ¬ b.tasks.all Task.isEnded = true) (hwake : b.nextWake = some wake) :
    Solo op (b.setNow wake) := by
  obtain ⟨t, htasks, hdrop⟩ := task_of_solo hs
  have hsane : Sane (b.setNow wake) := sane_congr (b := b) rfl rfl (fun _ => rfl) hs.alone.sane
  refine ⟨⟨hsane, hs.alone.only, hs.alone.work, hs.alone.place⟩, hs.errands, fun i p hp => ?_⟩
  have hplace : b.placeOf i = some p := hp
  rw [placeOf, htasks] at hplace
  obtain ⟨t', hi, rfl⟩ := Option.map_eq_some_iff.mp hplace
  cases List.mem_singleton.mp (List.mem_of_getElem? hi)
  rw [htasks, List.all_cons, List.all_nil, Bool.and_true, Task.isEnded] at hgoes
  rw [nextWake, htasks, List.filterMap_cons, wake_of_unlimited hdrop] at hwake
  have htimely := hs.timely i t.place hp
  cases hplace : t.place with
  | reading purpose w =>
      rw [hplace] at htimely hwake
      have hends : w.ends = wake := Option.some.inj hwake
      exact ⟨Nat.le_of_eq hends.symm, htimely.2⟩
  | ended e => exact absurd (by rw [hplace]) hgoes
  | pausing | resting | queued | writing | stopping => trivial

/-- A run that nothing drops goes on until the branch has ended. -/
theorem solo_of_run (hop : op.purpose = some purpose) (hopen : purpose ≠ .opening)
    (deadline : Option Instant) (fuel : Nat) : ∀ {b : Board σ}, Solo op b →
      (Board.run T o mode deadline fuel b).2 = false →
        Solo op (Board.run T o mode deadline fuel b).1 ∧
          (Board.run T o mode deadline fuel b).1.tasks.all Task.isEnded = true := by
  induction fuel with
  | zero =>
      intro b hs hflag
      cases hflag
  | succ fuel ih =>
      intro b hs hflag
      obtain ⟨hpass, hstop⟩ : Solo op (Board.pass T o mode (List.range b.tasks.length) b).1 ∧ _ :=
        solo_of_pass hop hopen (List.range b.tasks.length) hs
      generalize hrun : Board.pass T o mode (List.range b.tasks.length) b = passed at hpass hstop
      obtain ⟨b', stopped⟩ := passed
      dsimp only at hpass hstop
      rw [run_of_pass fuel hrun] at hflag ⊢
      cases hseq : b'.sequel deadline stopped with
      | done =>
          have hall : b'.tasks.all Task.isEnded = true := by
            have hover := sequel_eq_done_iff.mp hseq
            rw [Bool.or_eq_true] at hover
            exact hover.elim hstop id
          dsimp only
          rw [dropAll_of_ended T hall]
          exact ⟨hpass, hall⟩
      | cut clock =>
          rw [hseq] at hflag
          cases hflag
      | again clock =>
          rw [hseq] at hflag
          obtain ⟨hgoes, _⟩ := again_of_limited hseq
          obtain ⟨_, hnot⟩ := going_of_sequel hseq (by simp)
          refine ih ?_ hflag
          rcases again_cases hgoes with ⟨rfl, _⟩ | ⟨wake, rfl, hwake⟩
          · exact hpass
          · exact solo_of_clock hpass (Bool.eq_false_iff.mp hnot) hwake

end Boards

/-- A tool operation that runs by itself is not cut short, and what answers it comes while the
clock can tell. -/
theorem early_of_request {T : Transport σ} {o : ClientOptions} {mode : Gather}
    {deadline : Option Instant} {op : Operation} {purpose : Purpose}
    (hop : op.purpose = some purpose) (hopen : purpose ≠ .opening) {s s' : Session σ}
    {endings : List Ending}
    (h : gather T o mode deadline [{ work := .use op }] s = (s', some endings)) :
    ∃ e, endings = [e] ∧ e ≠ .cancelled ∧ ∀ reply, e = .returned (.ok reply) → s'.now < clockEnd := by
  have hstart : Solo op (Board.start s [{ work := .use op }]) := by
    refine ⟨alone_start rfl, rfl, fun i p hp => ?_⟩
    obtain ⟨u, rfl⟩ := placeOf_start hp
    trivial
  rw [gather_eq] at h
  obtain ⟨hsession, hendings⟩ := Prod.mk.inj h
  have hflag : (Board.run T o mode deadline (passBound 1) (Board.start s [{ work := .use op }])).2
      = false := by
    cases hrun : (Board.run T o mode deadline (passBound 1)
        (Board.start s [{ work := .use op }])).2 with
    | false => rfl
    | true =>
        rw [show [({ work := .use op } : Branch)].length = 1 from rfl, hrun] at hendings
        exact nomatch hendings
  obtain ⟨hsolo, hall⟩ := solo_of_run hop hopen deadline (passBound 1) hstart hflag
  rw [show [({ work := .use op } : Branch)].length = 1 from rfl] at hendings hsession
  rw [hflag] at hendings
  subst hsession
  generalize (Board.run T o mode deadline (passBound 1) (Board.start s [{ work := .use op }])).1
    = b at hsolo hall hendings
  obtain ⟨t, htasks, _⟩ := task_of_solo hsolo
  rw [htasks] at hall hendings
  cases hplace : t.place with
  | ended e =>
      have htimely := hsolo.timely 0 t.place (placeOf_of_task (by rw [htasks]; rfl))
      rw [hplace] at htimely
      refine ⟨e, ?_, ?_, ?_⟩
      · rw [← Option.some.inj hendings, List.map_cons, List.map_nil, ending, hplace]
      · rintro rfl
        exact htimely
      · rintro reply rfl
        exact htimely
  | _ => simp [Task.isEnded, hplace] at hall

end Conformance
