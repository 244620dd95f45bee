/-
Conformance — who is refused.

Where the policy is to refuse, a branch with an operation that heeds it is refused
when it finds the connection held.  Held is not the same as busy.  A question never
heeds the policy: asked while an operation is under way it waits in line, and when
that operation ends the connection is its own, whether or not its branch has been
polled since.  A branch that asks just then is refused although nothing is under
way.

`refused_iff` is the exact condition, for every schedule: another operation is
under way, or nothing is and the connection was handed over to a branch that has
not been polled since.  The two exclude each other, and what was handed over is
work that does not heed the policy.  A branch that has nobody beside it but
questions is never refused: to be handed the connection a question must have
waited behind an operation.

A transport could report the same error by itself; `Frank` ones do not.
-/
import Conformance.Proofs.Session.Sharing
import Conformance.Proofs.Session.Stops

namespace Conformance

open Client Connection Board

variable {σ : Type} {T : Transport σ} {o : ClientOptions} {b b' : Board σ} {i j : Nat}

/-! ## Where the error does not come from -/

/-- The transport never reports that the connection is held. -/
structure Frank (T : Transport σ) : Prop where
  write : ∀ now line w, (T.write now line w).result ≠ .error .busy
  arrivals : ∀ now w, ∀ a ∈ T.arrivals now w, a.item ≠ .error .busy
  stop : ∀ now grace w, (T.stop now grace w).result ≠ .error .busy

/-- The verdict reports no held connection. -/
def Verdict.Candid : Verdict → Prop
  | .answer _ => True
  | .misshapen e => e ≠ .busy
  | .refuse e => e ≠ .busy

def Progress.Candid : Progress → Prop
  | .next _ => True
  | .ended r => r ≠ .error .busy

/-- What is foretold, or has come, reports no held connection. -/
def Place.Candid : Place σ → Prop
  | .writing _ s => s.result ≠ .error .busy
  | .reading _ w => w.verdict.Candid
  | .stopping s => s.result ≠ .error .busy
  | .ended e => e ≠ .returned (.error .busy)
  | .pausing _ => True
  | .resting _ => True
  | .queued _ => True

section Outcomes

variable {c : Connection}

theorem candid_fail (purpose : Purpose) {e : ClientError} (he : e ≠ .busy) :
    (c.fail purpose e).2.Candid := by
  rw [fail_eq]
  intro hr
  cases purpose with
  | opening => exact nomatch hr
  | answer | listing => exact he (Except.error.inj hr)

theorem candid_begin (o : ClientOptions) (c : Connection) (op : Operation) :
    (c.begin o op).2.Candid := by
  have hrefusal : ∀ e, c.refusal = some e → e ≠ .busy := by
    intro e he
    rw [refusal] at he
    split at he <;> cases he <;> intro hbusy <;> cases hbusy
  cases op with
  | connect =>
      rw [begin]
      split
      · intro hr
        cases hr
      · intro hr
        cases hr
      · trivial
      · trivial
  | request | listTools | notify =>
      rw [begin]
      split
      · exact fun hr => hrefusal _ ‹_› (Except.error.inj hr)
      · trivial
  | unprintable cause =>
      rw [begin]
      split
      · exact fun hr => hrefusal _ ‹_› (Except.error.inj hr)
      · intro hr
        cases hr
  | shutdown | ask => trivial

theorem candid_written (why : Writing) {r : Except ClientError Unit} (hr : r ≠ .error .busy) :
    (c.written why r).2.Candid := by
  cases r with
  | ok u =>
      cases why with
      | request => trivial
      | announcement | notification => exact nofun
  | error e =>
      have he : e ≠ .busy := fun he => hr (congrArg Except.error he)
      cases why with
      | request purpose id => exact candid_fail purpose he
      | announcement => exact candid_fail .opening he
      | notification => exact fun hbusy => he (Except.error.inj hbusy)

theorem candid_settled (purpose : Purpose) {v : Verdict} (hv : v.Candid) :
    (c.settled purpose v).2.Candid := by
  cases v with
  | misshapen e => exact candid_fail purpose hv
  | refuse e => exact candid_fail purpose hv
  | answer r =>
      cases purpose with
      | answer =>
          intro hr
          cases hr
      | listing =>
          show (toolsOf r).map Reply.tools ≠ .error .busy
          cases htools : toolsOf r with
          | ok ts =>
              intro hr
              cases hr
          | error e =>
              obtain ⟨x, rfl⟩ | ⟨cause, raw, rfl⟩ := toolsOf_error htools <;> intro hr <;> cases hr
      | opening =>
          simp only [settled]
          rcases opened_cases { c with inFlight := none } r with ⟨e, hfault, hop⟩ | ⟨info, _, hop⟩
          · rw [hop]
            refine candid_fail .opening ?_
            cases hfault <;> intro hbusy <;> cases hbusy
          · rw [hop]
            trivial

theorem candid_stopped {r : Except ClientError Unit} (hr : r ≠ .error .busy) :
    (c.stopped r).2.Candid := by
  cases r with
  | ok u => exact nofun
  | error e => exact fun hbusy => hr (congrArg Except.error (Except.error.inj hbusy))

theorem candid_of_decides {id : Nat} {abandoned : Option Nat} {limit : Duration}
    {item : Except ClientError Incoming} {v : Verdict} (hitem : item ≠ .error .busy)
    (h : Decides id abandoned limit item v) : v.Candid := by
  cases h with
  | failed => exact fun he => hitem (congrArg Except.error he)
  | answer => trivial
  | ended | gaveUp | noJson | noResponse | foreign | misshapen => exact nofun

theorem candid_await (id : Nat) (abandoned : Option Nat) (limit : Duration)
    (deadline now : Instant) {arrivals : List Arrival}
    (h : ∀ a ∈ arrivals, a.item ≠ .error .busy) :
    (await id abandoned limit deadline now arrivals).verdict.Candid := by
  induction arrivals generalizing now with
  | nil => exact nofun
  | cons a rest ih =>
      rw [await]
      split
      · exact nofun
      · split
        · exact nofun
        · cases hj : judge id abandoned limit a.item with
          | none => exact ih _ fun a' ha' => h a' (List.mem_cons_of_mem a ha')
          | some v =>
              exact candid_of_decides (h a List.mem_cons_self) (judge_eq_some_iff.mp hj)

end Outcomes

/-! ## Where the error comes from -/

/-- Branch `i`, polled, asks for a held connection and heeds the policy. -/
def Board.Refuses (o : ClientOptions) (b : Board σ) (i : Nat) : Prop :=
  ∃ op, b.asks i = some op ∧ op.heedsPolicy = true ∧ o.policy = .reject ∧ b.holder ≠ none

/-- What a branch is driven to reports no held connection. -/
theorem candid_of_driven (hT : Frank T) {c : Connection} {p : Progress}
    (hd : Driven T o i b c p b') (hp : p.Candid) {q : Place σ} (hq : b'.placeOf i = some q) :
    q.Candid := by
  induction hd with
  | ended =>
      cases eq_of_setPlace hq
      exact fun he => hp (Ending.returned.inj he)
  | told | overflows =>
      cases eq_of_setPlace hq
      exact nofun
  | reads =>
      cases eq_of_setPlace hq
      exact candid_await _ _ _ _ _ (hT.arrivals _ _)
  | writes =>
      cases eq_of_setPlace hq
      exact hT.write _ _ _
  | stops =>
      cases eq_of_setPlace hq
      exact hT.stop _ _ _
  | @read b b' c c' p' purpose id _ _ hsettled _ ih =>
      have hverdict : (b.waitFor T o c id).verdict.Candid :=
        candid_await _ _ _ _ _ (hT.arrivals b.session.now b.session.wire)
      have hnext := candid_settled (c := c) purpose hverdict
      rw [hsettled] at hnext
      exact ih hnext hq
  | @wrote b b' c c' p' why line _ hwritten _ ih =>
      have hresult : (b.sending T line).result ≠ .error .busy := hT.write _ _ _
      have hnext := candid_written (c := c) why hresult
      rw [hwritten] at hnext
      exact ih hnext hq
  | @stopped b b' c c' p' grace _ hstopped _ ih =>
      have hnext := candid_stopped (c := c) (hT.stop b.session.now grace b.session.wire)
      rw [hstopped] at hnext
      exact ih hnext hq

/-- A poll leads its branch to a place that reports no held connection, or leaves it
where it is, or the branch is refused. -/
theorem candid_of_goes (hT : Frank T) (h : Goes T o i b b')
    (hb : ∀ p, b.placeOf i = some p → p.Candid) {q : Place σ} (hq : b'.placeOf i = some q) :
    q.Candid ∨ b.Refuses o i := by
  cases h with
  | still => exact .inl (hb q hq)
  | rests _ _ _ _ hfree _ hended =>
      cases eq_of_setPlace hq
      left
      cases q with
      | ended e =>
          rw [hended e rfl]
          exact nofun
      | writing | reading | stopping => exact (hfree.1 trivial).elim
      | pausing | resting | queued => trivial
  | rested =>
      cases eq_of_setPlace hq
      exact .inl nofun
  | refused hasks hheld hheeds hpolicy => exact .inr ⟨_, hasks, hheeds, hpolicy, hheld⟩
  | linesUp =>
      cases eq_of_setPlace hq
      exact .inl trivial
  | enters _ _ hd | handed _ _ hd =>
      exact .inl (candid_of_driven hT hd (candid_begin o _ _) hq)
  | wrote hp _ hd =>
      exact .inl (candid_of_driven hT hd (candid_written _ (hb _ hp)) hq)
  | read hp _ hd =>
      exact .inl (candid_of_driven hT hd (candid_settled _ (hb _ hp)) hq)
  | stopped hp _ hd =>
      exact .inl (candid_of_driven hT hd (candid_stopped (hb _ hp)) hq)

theorem place_of_drops (h : Drops i b b') {q : Place σ} (hq : b'.placeOf j = some q) :
    b.placeOf j = some q ∨ q = .ended .cancelled := by
  by_cases hj : j = i
  · subst hj
    cases h with
    | gone => exact .inl hq
    | idle | leaves | letsGo => exact .inr (eq_of_setPlace hq)
  · rw [placeOf, task_of_drops h hj] at hq
    exact .inl hq

theorem candid_of_move (hT : Frank T) {m : Move} (hb : ∀ p, b.placeOf j = some p → p.Candid)
    {q : Place σ} (hq : (b.move T o m).placeOf j = some q) :
    q.Candid ∨ m = .poll j ∧ b.Refuses o j := by
  have hdropped : ∀ {i : Nat} {b₁ : Board σ}, Drops i b₁ (b.move T o m) →
      (∀ p, b₁.placeOf j = some p → p.Candid ∨ m = .poll j ∧ b.Refuses o j) →
      q.Candid ∨ m = .poll j ∧ b.Refuses o j := by
    intro i b₁ hdrop hb₁
    rcases place_of_drops hdrop hq with hold | rfl
    · exact hb₁ q hold
    · exact .inl nofun
  rcases move_cases T o b m with ⟨i, b₁, rfl, h, hnext⟩ | ⟨i, rfl, hdrop⟩ | ⟨now, rfl, heq⟩
  · have hpolled : ∀ p, b₁.placeOf j = some p →
        p.Candid ∨ Move.poll i = .poll j ∧ b.Refuses o j := by
      intro p hp
      by_cases hj : j = i
      · subst hj
        exact (candid_of_goes hT h hb hp).imp_right fun hrefuses => ⟨rfl, hrefuses⟩
      · rw [placeOf, task_of_goes h hj] at hp
        exact .inl (hb p hp)
    rcases hnext with heq | hdrop
    · exact hpolled q (heq ▸ hq)
    · exact hdropped hdrop hpolled
  · exact hdropped hdrop fun p hp => .inl (hb p hp)
  · rw [heq] at hq
    exact .inl (hb q hq)

/-- Who was refused was so at a poll at which it found the connection held. -/
theorem refuses_of_moves (hT : Frank T) (ms : List Move) : ∀ {b : Board σ},
    (∀ p, b.placeOf i = some p → p.Candid) →
    (b.moves T o ms).placeOf i = some (.ended (.returned (.error .busy))) →
    ∃ before after, ms = before ++ .poll i :: after ∧ (b.moves T o before).Refuses o i := by
  induction ms with
  | nil => exact fun hb hp => absurd rfl (hb _ hp)
  | cons m ms ih =>
      intro b hb hp
      by_cases hnow : m = .poll i ∧ b.Refuses o i
      · obtain ⟨rfl, hrefuses⟩ := hnow
        exact ⟨[], ms, rfl, hrefuses⟩
      · have hnext : ∀ p, (b.move T o m).placeOf i = some p → p.Candid := fun p hp' =>
          (candid_of_move hT hb hp').resolve_right hnow
        obtain ⟨before, after, rfl, hrefuses⟩ := ih hnext hp
        exact ⟨m :: before, after, rfl, hrefuses⟩

/-! ## Who holds -/

/-- An operation is under way. -/
def Board.Busy (b : Board σ) : Prop := ∃ j p, b.placeOf j = some p ∧ p.waits

/-- The connection was handed over to branch `j`, which is to start `op` when it is polled. -/
def Board.HandedTo (b : Board σ) (j : Nat) (op : Operation) : Prop :=
  b.holder = some j ∧ b.placeOf j = some (.queued op)

/-- The connection is held in two ways. -/
theorem held_iff (hs : Sane b) : b.holder ≠ none ↔ b.Busy ∨ ∃ j op, b.HandedTo j op := by
  constructor
  · intro hheld
    obtain ⟨j, hj⟩ := Option.ne_none_iff_exists'.mp hheld
    obtain ⟨p, hp, hwaits | hqueued⟩ := hs.holds j hj
    · exact .inl ⟨j, p, hp, hwaits⟩
    · cases p with
      | queued op => exact .inr ⟨j, op, hj, hp⟩
      | _ => exact hqueued.elim
  · rintro (⟨j, p, hp, hwaits⟩ | ⟨j, op, hj, _⟩)
    · rw [hs.waits j p hp hwaits]
      exact nofun
    · rw [hj]
      exact nofun

theorem not_busy_of_handedTo (hs : Sane b) {op : Operation} (h : b.HandedTo j op) : ¬ b.Busy := by
  rintro ⟨k, p, hp, hwaits⟩
  cases (hs.waits k p hp hwaits).symm.trans h.1
  cases hp.symm.trans h.2
  exact hwaits

/-- Who stands in line does not heed the policy, where that is to refuse. -/
def Board.Patient (b : Board σ) : Prop :=
  ∀ j op, b.placeOf j = some (.queued op) → op.heedsPolicy = false

theorem patient_of_move (hreject : o.policy = .reject) (hb : Patient b) (m : Move) :
    Patient (b.move T o m) := by
  refine keeps_of_move (Q := Patient) (fun i b b' hb h j op hp => ?_)
    (fun i b b' hb h j op hp => hb j op (queued_of_drops h hp)) (fun _ _ => id) hb m
  rcases queued_of_goes h hp with hold | ⟨_, _, hpolicy⟩
  · exact hb j op hold
  · cases hheeds : op.heedsPolicy with
    | false => rfl
    | true => exact nomatch hreject.symm.trans (hpolicy hheeds)

/-! ## Questions alone -/

/-- Branch `i` has nobody beside it but questions. -/
structure Undisturbed (i : Nat) (b : Board σ) : Prop where
  sane : Sane b
  others : ∀ j op, j ≠ i → b.workOf j = some (.use op) → ∃ q, op = .ask q
  free : ∀ u, b.placeOf i = some (.pausing u) → b.holder = none

/-- A question that finds the connection free leaves it free. -/
theorem free_of_question (hs : Sane b) {q : Query} (hfree : b.holder = none)
    (hd : Driven T o j { b.begun j with holder := some j } (b.session.conn.begin o (.ask q)).1
      (b.session.conn.begin o (.ask q)).2 b') : b'.holder = none := by
  cases hd with
  | told =>
      show b.line.head? = none
      rw [hs.idle hfree]
      rfl

theorem undisturbed_of_goes (h : Undisturbed i b) (hgoes : Goes T o j b b') :
    Undisturbed i b' := by
  refine ⟨sane_of_goes h.sane hgoes, fun k op hk hwork => ?_, fun u hu => ?_⟩
  · rw [workOf_of_goes hgoes] at hwork
    exact h.others k op hk hwork
  · obtain ⟨honward, hasked⟩ := onward_of_goes h.sane hgoes
    have hfree : b.holder = none := h.free u (honward.pausing i u hu)
    cases hgoes with
    | still | rests | rested => exact hfree
    | refused _ hheld | linesUp _ hheld => exact absurd hfree hheld
    | handed _ hholds => exact nomatch hfree.symm.trans hholds
    | wrote hp | read hp | stopped hp =>
        exact nomatch hfree.symm.trans (h.sane.waits j _ hp trivial)
    | enters hasks _ hd =>
        have hj : j ≠ i := by
          rintro rfl
          exact hasked (by rw [hasks]; exact nofun) u hu
        obtain ⟨q, rfl⟩ := h.others j _ hj (work_of_asks hasks)
        exact free_of_question h.sane hfree hd

theorem undisturbed_of_drops (h : Undisturbed i b) (hdrops : Drops j b b') :
    Undisturbed i b' := by
  refine ⟨sane_of_drops h.sane hdrops, fun k op hk hwork => ?_, fun u hu => ?_⟩
  · rw [workOf_of_drops hdrops] at hwork
    exact h.others k op hk hwork
  · have hfree : b.holder = none :=
      h.free u ((onward_of_drops h.sane hdrops).pausing i u hu)
    cases hdrops with
    | gone | idle | leaves => exact hfree
    | letsGo hp hholds =>
        exact nomatch hfree.symm.trans (hholds.elim (h.sane.waits j _ hp) id)

theorem undisturbed_of_moves (h : Undisturbed i b) (ms : List Move) :
    Undisturbed i (b.moves T o ms) :=
  keeps_of_moves (Q := Undisturbed i)
    (fun _ m hb => keeps_of_move (Q := Undisturbed i) (fun _ _ _ => undisturbed_of_goes)
      (fun _ _ _ => undisturbed_of_drops)
      (fun _ now hb => ⟨sane_of_move (T := T) (o := o) hb.sane (.clock now), hb.others, hb.free⟩)
      hb m) h ms

theorem undisturbed_start {s : Session σ} {branches : List Branch}
    (h : ∀ (j : Nat) (br : Branch) (op : Operation), branches[j]? = some br → j ≠ i →
      br.work = .use op → ∃ q, op = .ask q) : Undisturbed i (Board.start s branches) := by
  refine ⟨sane_start s branches, fun j op hj hwork => ?_, fun _ _ => rfl⟩
  obtain ⟨t, ht, hop⟩ := Option.map_eq_some_iff.mp hwork
  obtain ⟨br, hbr, rfl⟩ := Option.map_eq_some_iff.mp ((List.getElem?_map ..).symm.trans ht)
  exact h j br op hbr hj hop

/-! ## The refusal -/

theorem candid_start {s : Session σ} {branches : List Branch} :
    ∀ p, (Board.start s branches).placeOf i = some p → p.Candid := by
  intro p hp
  obtain ⟨u, rfl⟩ := placeOf_start hp
  trivial

/-- Who is refused, whatever the transport does, if it is frank, and however the branches are
scheduled and dropped (`ms`).

An operation that heeds the policy is refused just when another operation is under way, or
nothing is and the connection was handed over to work that does not heed the policy, whose branch
has not been polled since.  Who was refused was so at such a moment, when it asked.  Questions
alone never make an operation fail. -/
theorem refused_iff (hT : Frank T) (hreject : o.policy = .reject) (s : Session σ)
    (branches : List Branch) (ms : List Move) :
    let start := Board.start s branches
    let b := start.moves T o ms
    (∀ i op, b.asks i = some op → op.heedsPolicy = true →
      ((b.move T o (.poll i)).placeOf i = some (.ended (.returned (.error .busy))) ↔
        (∃ j p, j ≠ i ∧ b.placeOf j = some p ∧ p.waits) ∨
          ¬ b.Busy ∧ ∃ j op', j ≠ i ∧ b.HandedTo j op' ∧ op'.heedsPolicy = false)) ∧
    (∀ i, b.placeOf i = some (.ended (.returned (.error .busy))) →
      ∃ before after, ms = before ++ .poll i :: after ∧ (start.moves T o before).Refuses o i) ∧
    ∀ i, (∀ (j : Nat) (br : Branch) (op : Operation), branches[j]? = some br → j ≠ i →
        br.work = .use op → ∃ q, op = .ask q) →
      b.placeOf i ≠ some (.ended (.returned (.error .busy))) := by
  intro start b
  have hsane : Sane start := sane_start s branches
  have hb : Sane b := sane_of_moves hsane ms
  have hpatient : Patient b := keeps_of_moves (Q := Patient)
    (fun _ m hb => patient_of_move hreject hb m)
    (fun j op hp => by obtain ⟨u, hu⟩ := placeOf_start hp; exact nomatch hu) ms
  refine ⟨fun i op hasks hheeds => ?_, fun i hp => refuses_of_moves hT ms candid_start hp, ?_⟩
  · obtain ⟨u, hpause⟩ := pausing_of_asks hasks
    have hother : ∀ {j : Nat} {p : Place σ}, b.placeOf j = some p → p.waits ∨ p.isQueued →
        j ≠ i := by
      rintro j p hp hstate rfl
      cases hp.symm.trans hpause
      exact hstate.elim id id
    constructor
    · intro hrefused
      have hcandid : ∀ p, b.placeOf i = some p → p.Candid := by
        intro p hp
        cases hp.symm.trans hpause
        trivial
      rcases candid_of_move hT hcandid hrefused with hnever | ⟨_, _, _, _, _, hheld⟩
      · exact absurd rfl hnever
      · rcases (held_iff hb).mp hheld with ⟨j, p, hp, hwaits⟩ | ⟨j, op', hhanded⟩
        · exact .inl ⟨j, p, hother hp (.inl hwaits), hp, hwaits⟩
        · exact .inr ⟨not_busy_of_handedTo hb hhanded, j, op', hother hhanded.2 (.inr trivial),
            hhanded, hpatient j op' hhanded.2⟩
    · intro hheld
      have hholder : b.holder ≠ none := by
        rcases hheld with ⟨j, p, _, hp, hwaits⟩ | ⟨_, j, op', _, hhanded, _⟩
        · exact (held_iff hb).mpr (.inl ⟨j, p, hp, hwaits⟩)
        · exact (held_iff hb).mpr (.inr ⟨j, op', hhanded⟩)
      rw [poll_of_refused hb hasks hholder hheeds hreject]
      exact placeOf_setPlace_self _ (by rw [placeOf_begun, hpause]; rfl)
  · intro i hothers hp
    -- when it was refused it was pausing, and nobody held the connection
    obtain ⟨before, _, rfl, op, hasks, _, _, hheld⟩ := refuses_of_moves hT ms candid_start hp
    have hund : Undisturbed i (start.moves T o before) :=
      undisturbed_of_moves (undisturbed_start hothers) before
    obtain ⟨u, hpause⟩ := pausing_of_asks hasks
    exact hheld (hund.free u hpause)

theorem Counter.frank : Frank Counter.transport where
  write _ _ _ := nofun
  stop _ _ _ := nofun
  arrivals _ w a ha := by
    obtain ⟨lines, due⟩ := w
    cases due with
    | none => exact nomatch ha
    | some t =>
        simp only [transport, List.mem_cons, List.not_mem_nil, or_false] at ha
        rcases ha with rfl | rfl <;> exact nofun

/-- A question waits behind a notification.  The notification is out and the question not
answered yet when a listing starts: that is refused, though nothing is under way.  The
notification, with nobody beside it but the question, is not refused. -/
theorem refused_iff_of_waiting_question :
    let o : ClientOptions := { policy := .reject }
    let notice : Branch := { work := .use (.notify .opened) }
    let question : Branch := { work := .use (.ask .stderr) }
    let listing : Branch := { pause := 1, work := .use .listTools }
    let ms : List Move := [.poll 0, .poll 1, .clock 1, .poll 0]
    let b := (Board.start countedSession [notice, question, listing]).moves Counter.transport o ms
    b.asks 2 = some .listTools ∧ ¬ b.Busy ∧ b.HandedTo 1 (.ask .stderr) ∧
      (b.move Counter.transport o (.poll 2)).placeOf 2
        = some (.ended (.returned (.error .busy))) ∧
      (∃ before after, ms ++ [.poll 2] = before ++ .poll 2 :: after ∧
        ((Board.start countedSession [notice, question, listing]).moves Counter.transport o
          before).Refuses o 2) ∧
      ((Board.start countedSession [notice, question]).moves Counter.transport o ms).placeOf 0
        ≠ some (.ended (.returned (.error .busy))) := by
  intro o notice question listing ms b
  have hhanded : b.HandedTo 1 (.ask .stderr) := ⟨rfl, rfl⟩
  have hidle : ¬ b.Busy := not_busy_of_handedTo (sane_of_moves (sane_start _ _) ms) hhanded
  obtain ⟨hiff, _, _⟩ := refused_iff Counter.frank (o := o) rfl countedSession
    [notice, question, listing] ms
  obtain ⟨_, _, halone⟩ :=
    refused_iff Counter.frank (o := o) rfl countedSession [notice, question] ms
  have hrefused := (hiff 2 .listTools rfl rfl).mpr
    (.inr ⟨hidle, 1, _, by decide, hhanded, rfl⟩)
  obtain ⟨_, hasked, _⟩ := refused_iff Counter.frank (o := o) rfl countedSession
    [notice, question, listing] (ms ++ [.poll 2])
  have hends : ((Board.start countedSession [notice, question, listing]).moves Counter.transport o
      (ms ++ [.poll 2])).placeOf 2 = some (.ended (.returned (.error .busy))) := by
    rw [moves_append, moves_cons, moves_nil]
    exact hrefused
  refine ⟨rfl, hidle, hhanded, hrefused, hasked 2 hends, halone 0 ?_⟩
  · intro j br op hbr hj hop
    match j, hbr with
    | 0, _ => exact absurd rfl hj
    | 1, hbr =>
        cases hbr
        cases hop
        exact ⟨_, rfl⟩

end Conformance
