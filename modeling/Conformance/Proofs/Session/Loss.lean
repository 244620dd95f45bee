/-
Conformance — the loss of a session.

Once a session is open it is only ever lost, and then for good.  What loses it can be
told: a branch that has ended with a fatal error, or a shutdown that has started.
The other way round, once a branch has ended with a fatal error the session is lost.
Both hold on boards of any size, whatever is dropped and when (`outlasts_of_moves`), and
of programs with all that they gather (`spares_of_program`).
-/
import Conformance.Proofs.Session.Fatality
import Conformance.Proofs.Session.Trace

namespace Conformance

open Connection Board

variable {σ : Type}

/-! ## From a state to the next -/

/-- The state is that of a session that is open, or has been lost. -/
def ClientState.Lasting (st : ClientState) : Prop := st = .ready ∨ st = .disconnected

/-- From state `st` to state `st'` nothing changes, or the session is lost. -/
def ClientState.Falls (st st' : ClientState) : Prop := st' = st ∨ st' = .disconnected

namespace ClientState

variable {st st' st'' : ClientState}

theorem falls_refl (st : ClientState) : st.Falls st := .inl rfl

theorem falls_trans (h : st.Falls st') (h' : st'.Falls st'') : st.Falls st'' := by
  rcases h' with rfl | hdown
  · exact h
  · exact .inr hdown

theorem Lasting.falls (hl : st.Lasting) (h : st.Falls st') : st'.Lasting := by
  rcases h with rfl | hdown
  · exact hl
  · exact .inr hdown

theorem Falls.down (h : st.Falls st') (hdown : st = .disconnected) : st' = .disconnected :=
  h.elim (·.trans hdown) id

end ClientState

open ClientState

section Phases

variable {op : Operation} {c : Connection} {purpose : Purpose}

/-- What is asked of an open session does not open it. -/
theorem ready_of_lasting (hl : c.state.Lasting) (hs : c.state = purpose.state) :
    c.state = .ready ∧ purpose ≠ .opening := by
  rcases hl with hready | hdown
  · refine ⟨hready, ?_⟩
    rintro rfl
    exact nomatch hready.symm.trans hs
  · exact absurd (hs.symm.trans hdown) (purpose_state_ne purpose)

theorem falls_note (c : Connection) (e : ClientError) : c.state.Falls (c.note e).state := by
  rw [note]
  split
  · exact .inr rfl
  · exact .inl rfl

theorem falls_fail (hp : purpose ≠ .opening) (e : ClientError) :
    c.state.Falls (c.fail purpose e).1.state := by
  cases purpose with
  | opening => exact absurd rfl hp
  | answer | listing => exact falls_note c e

theorem falls_begin (o : ClientOptions) (hl : c.state.Lasting) (op : Operation) :
    c.state.Falls (c.begin o op).1.state := by
  cases op with
  | connect =>
      simp only [begin]
      split
      · exact falls_refl _
      · exact falls_refl _
      · rcases hl with h | h <;> cases ‹c.state = .created›.symm.trans h
      · rcases hl with h | h <;> cases ‹c.state = .opening›.symm.trans h
  | request | unprintable | listTools | notify =>
      simp only [begin]
      split <;> exact .inl rfl
  | shutdown grace => exact .inr rfl
  | ask q => exact .inl rfl

theorem falls_written {why : Writing} {line : String} (hl : c.state.Lasting)
    (h : op.Fits c.state (.next (.write why line))) (r : Except ClientError Unit) :
    c.state.Falls (c.written why r).1.state := by
  cases why with
  | request purpose id =>
      cases r with
      | ok u => exact falls_refl _
      | error e => exact falls_fail (c := { c with inFlight := none }) (ready_of_lasting hl h.2).2 e
  | announcement info =>
      have hopening : c.state = Purpose.opening.state := h.2
      exact absurd rfl (ready_of_lasting hl hopening).2
  | notification =>
      cases r with
      | ok u => exact falls_refl _
      | error e => exact falls_note c e

theorem falls_settled {id : Nat} (hl : c.state.Lasting)
    (h : op.Fits c.state (.next (.await purpose id))) (v : Verdict) :
    c.state.Falls (c.settled purpose v).1.state := by
  have hp : purpose ≠ .opening := (ready_of_lasting hl h.2).2
  cases v with
  | refuse e => exact falls_fail hp e
  | misshapen e => exact falls_fail (c := { c with inFlight := none }) hp e
  | answer r =>
      cases purpose with
      | opening => exact absurd rfl hp
      | answer | listing => exact falls_refl _

/-- An operation that waits heeds the policy, or has lost the session. -/
theorem heeds_of_fits {st : ClientState} {ph : Phase} (h : op.Fits st (.next ph))
    (hask : ∀ q, ph ≠ .ask q) : op.heedsPolicy = true ∨ st = .disconnected := by
  have hpurpose : ∀ {purpose : Purpose}, op.purpose = some purpose → op.heedsPolicy = true := by
    intro purpose hop
    cases op with
    | connect | request | listTools => rfl
    | unprintable | notify | shutdown | ask => exact nomatch hop
  cases ph with
  | write why line =>
      cases why with
      | request purpose id => exact .inl (hpurpose h.1)
      | announcement info => exact .inl (h.1 ▸ rfl)
      | notification =>
          obtain ⟨⟨n, rfl⟩, _⟩ := h
          exact .inl rfl
  | await purpose id => exact .inl (hpurpose h.1)
  | stop grace => exact .inr h.2
  | ask q => exact absurd rfl (hask q)

/-- What loses the session while an operation heeds the policy is a fatal error. -/
theorem fatal_of_fits {p : Progress} (hop : op.heedsPolicy = true)
    (h : op.Fits .disconnected p) : ∃ e, p = .ended (.error e) ∧ e.isFatal = true := by
  cases p with
  | next p =>
      cases p with
      | write why line =>
          cases why with
          | request purpose id => exact absurd h.2.symm (purpose_state_ne purpose)
          | announcement info => exact nomatch h.2
          | notification => exact nomatch h.2
      | await purpose id => exact absurd h.2.symm (purpose_state_ne purpose)
      | stop grace =>
          obtain ⟨⟨g, rfl⟩, _⟩ := h
          exact nomatch hop
      | ask q =>
          cases h
          exact nomatch hop
  | ended r =>
      cases r with
      | ok reply =>
          cases op with
          | connect | request | unprintable | listTools | notify => exact nomatch h
          | shutdown | ask => exact nomatch hop
      | error e =>
          refine ⟨e, rfl, ?_⟩
          cases op with
          | connect =>
              obtain ⟨inner, rfl, _⟩ := h
              rfl
          | request | unprintable | listTools | notify => exact h.mpr rfl
          | shutdown | ask => exact nomatch hop

/-- Only a shutdown loses the session as it begins. -/
theorem down_of_begin {o : ClientOptions} (h : (c.begin o op).1.state = .disconnected) :
    c.state = .disconnected ∨ ∃ grace, op = .shutdown grace := by
  cases op with
  | connect =>
      cases hs : c.state with
      | disconnected => exact .inl rfl
      | created | opening =>
          simp only [begin, hs] at h
          cases h
      | ready =>
          simp only [begin, hs] at h
          cases h
  | request | unprintable | listTools | notify =>
      simp only [begin] at h
      split at h <;> exact .inl h
  | shutdown grace => exact .inr ⟨grace, rfl⟩
  | ask q => exact .inl h

/-- A fatal error is one of a session that is lost. -/
theorem down_of_fails {st : ClientState} {e : ClientError} (hl : st.Lasting)
    (h : op.Fails st e) (he : e.isFatal = true) : st = .disconnected := by
  cases op with
  | connect =>
      obtain ⟨_, _, _, hst⟩ := h
      rcases hst with hdown | rfl
      · exact hdown
      · exact hl.resolve_left nofun
  | request | unprintable | listTools | notify => exact h.mp he
  | shutdown => exact h
  | ask => exact h.elim

end Phases

/-! ## The moves of a board -/

section Boards

variable {T : Transport σ} {o : ClientOptions} {b b' : Board σ} {i : Nat} {op : Operation}

theorem conn_of_told {s s' : Session σ} {q : Query} {r : Reply} (h : look T s q = (s', r)) :
    s'.conn = s.conn := by
  rw [← conn_of_look T s q, h]

theorem falls_of_driven {c : Connection} {p : Progress} (hd : Driven T o i b c p b')
    (hl : c.state.Lasting) (hfits : op.Fits c.state p) :
    c.state.Falls b'.session.conn.state := by
  induction hd with
  | ended | overflows | reads | writes | stops => exact falls_refl _
  | @told b c q s r hlook => exact .inl (congrArg (·.state) (conn_of_told hlook))
  | @read b b' c c' p' purpose id _ _ hsettled _ ih =>
      have hfalls := falls_settled hl hfits (b.waitFor T o c id).verdict
      have hnext := fits_settled hfits (b.waitFor T o c id).verdict
      rw [hsettled] at hfalls hnext
      exact falls_trans hfalls (ih (hl.falls hfalls) hnext)
  | @wrote b b' c c' p' why line _ hwritten _ ih =>
      have hfalls := falls_written hl hfits (b.sending T line).result
      have hnext := fits_written hfits (b.sending T line).result
      rw [hwritten] at hfalls hnext
      exact falls_trans hfalls (ih (hl.falls hfalls) hnext)
  | @stopped b b' c c' p' grace _ hstopped _ ih =>
      have hnext := fits_stopped hfits (T.stop b.session.now grace b.session.wire).result
      rw [hstopped] at hnext
      cases hstopped
      exact ih hl hnext

/-- The session is lost. -/
def Board.Lost (b : Board σ) : Prop := b.session.conn.state = .disconnected

/-- Branch `i` has ended with a fatal error. -/
def Board.Broke (b : Board σ) (i : Nat) : Prop :=
  ∃ e, b.placeOf i = some (.ended (.returned (.error e))) ∧ e.isFatal = true

/-- A phase that loses the session ends with a fatal error. -/
theorem broke_of_phase {c c' : Connection} {ph : Phase} {p : Progress}
    (hfits : op.Fits c.state (.next ph)) (hask : ∀ q, ph ≠ .ask q) (hnext : op.Fits c'.state p)
    (hd : Driven T o i b c' p b') (hthere : (b.placeOf i).isSome)
    (hdown : c'.state = .disconnected) : c.state = .disconnected ∨ b'.Broke i := by
  rcases heeds_of_fits hfits hask with hop | hbefore
  · obtain ⟨e, rfl, he⟩ := fatal_of_fits hop (hdown ▸ hnext)
    cases hd
    exact .inr ⟨e, placeOf_setPlace_self _ hthere, he⟩
  · exact .inl hbefore

/-- The holder that is driven until the session is lost found it lost, or ends with a fatal
error. -/
theorem broke_of_driven {c : Connection} {p : Progress} (hd : Driven T o i b c p b')
    (hthere : (b.placeOf i).isSome) (hfits : op.Fits c.state p) (hlost : b'.Lost) :
    c.state = .disconnected ∨ b'.Broke i := by
  induction hd with
  | ended | overflows | reads | writes | stops => exact .inl hlost
  | @told b c q s r hlook =>
      have hsame : s.conn = c := conn_of_told hlook
      exact .inl (hsame ▸ hlost)
  | @read b b' c c' p' purpose id _ _ hsettled hd ih =>
      have hnext := fits_settled hfits (b.waitFor T o c id).verdict
      rw [hsettled] at hnext
      exact (ih hthere hnext hlost).elim (broke_of_phase hfits nofun hnext hd hthere) .inr
  | @wrote b b' c c' p' why line _ hwritten hd ih =>
      have hnext := fits_written hfits (b.sending T line).result
      rw [hwritten] at hnext
      exact (ih hthere hnext hlost).elim (broke_of_phase hfits nofun hnext hd hthere) .inr
  | @stopped b b' c c' p' grace => exact .inl hfits.2

/-- The session of a board is open, or was lost.  What waits fits its state, and it was lost
if a branch has ended with a fatal error. -/
structure Board.Lasts (b : Board σ) : Prop where
  sane : Sane b
  state : b.session.conn.state.Lasting
  place : ∀ i p, b.placeOf i = some p → p.waits →
    ∃ op : Operation, p.Suits op b.session.conn.state
  broke : ∀ i, b.Broke i → b.Lost

/-- From board `b` to board `b'` the session lasts, or it is lost as a branch breaks or for
another reason. -/
structure Board.Outlasts (reason : Prop) (b b' : Board σ) : Prop where
  lasts : Lasts b'
  falls : b.session.conn.state.Falls b'.session.conn.state
  cause : b'.Lost → b.Lost ∨ (∃ i, b'.Broke i) ∨ reason

theorem outlasts_self (reason : Prop) (hl : Lasts b) : Outlasts reason b b :=
  ⟨hl, falls_refl _, .inl⟩

/-- What has another reason has it as the reason of more. -/
theorem Board.Outlasts.weaken {reason more : Prop} (h : Outlasts reason b b')
    (hmore : reason → more) : Outlasts more b b' :=
  ⟨h.lasts, h.falls, fun hlost => (h.cause hlost).imp_right (Or.imp_right hmore)⟩

/-- A branch that has broken stays where it is. -/
theorem broke_of_onward (h : Onward b b') (hb : b.Broke i) : b'.Broke i := by
  obtain ⟨e, hp, he⟩ := hb
  exact ⟨e, h.ended i _ hp, he⟩

theorem outlasts_trans {reason : Prop} {b'' : Board σ} (h : Outlasts reason b b')
    (h' : Outlasts reason b' b'') (honward : Onward b' b'') : Outlasts reason b b'' := by
  refine ⟨h'.lasts, falls_trans h.falls h'.falls, fun hlost => ?_⟩
  rcases h'.cause hlost with hbefore | hlater
  · exact (h.cause hbefore).imp_right
      (Or.imp_left fun ⟨i, hb⟩ => ⟨i, broke_of_onward honward hb⟩)
  · exact .inr hlater

/-- The holder is driven. -/
theorem outlasts_of_driven {b₁ : Board σ} {c : Connection} {p : Progress} {reason : Prop}
    (hl : Lasts b) (hheld : Held b₁ i) (hplaces : b₁.placeOf = b.placeOf)
    (hd : Driven T o i b₁ c p b') (hfits : op.Fits c.state p)
    (hfalls : b.session.conn.state.Falls c.state)
    (hcause : c.state = .disconnected → b.Lost ∨ b'.Broke i ∨ reason) : Outlasts reason b b' := by
  have hlater : b.session.conn.state.Falls b'.session.conn.state :=
    falls_trans hfalls (falls_of_driven hd (hl.state.falls hfalls) hfits)
  have hlands := lands_of_driven hd
  obtain ⟨q, hq, hsuits⟩ := suits_of_driven hd hheld.there hfits
  refine ⟨⟨sane_of_lands hheld hlands, hl.state.falls hlater, ?_, ?_⟩, hlater, fun hlost => ?_⟩
  · intro j p hp hwaits
    by_cases hj : j = i
    · subst hj
      cases hq.symm.trans hp
      exact ⟨op, hsuits⟩
    · rw [placeOf_of_lands hlands hj] at hp
      exact absurd hwaits (hheld.others j p hj hp)
  · rintro j ⟨e, hp, he⟩
    by_cases hj : j = i
    · subst hj
      cases hq.symm.trans hp
      exact down_of_fails (hl.state.falls hlater) hsuits he
    · rw [placeOf_of_lands hlands hj, hplaces] at hp
      exact hlater.down (hl.broke j ⟨e, hp, he⟩)
  · rcases broke_of_driven hd hheld.there hfits hlost with hdown | hbroke
    · exact (hcause hdown).imp_right (Or.imp_left fun hb => ⟨i, hb⟩)
    · exact .inr (.inl ⟨i, hbroke⟩)

/-- The connection stays as it is, and no branch breaks. -/
theorem outlasts_of_places {reason : Prop} (hl : Lasts b) (hs : Sane b')
    (hconn : b'.session.conn = b.session.conn)
    (hplaces : ∀ j p, b'.placeOf j = some p → b.placeOf j = some p ∨
      ¬ p.waits ∧ ∀ e, p = .ended (.returned (.error e)) → e.isFatal = false) :
    Outlasts reason b b' := by
  refine ⟨⟨hs, hconn ▸ hl.state, fun j p hp hwaits => ?_, ?_⟩, .inl (by rw [hconn]),
    fun hlost => .inl ?_⟩
  · rcases hplaces j p hp with hold | ⟨hnot, _⟩
    · rw [hconn]
      exact hl.place j p hold hwaits
    · exact absurd hwaits hnot
  · rintro j ⟨e, hp, he⟩
    rcases hplaces j _ hp with hold | ⟨_, hbroke⟩
    · rw [Lost, hconn]
      exact hl.broke j ⟨e, hold, he⟩
    · exact absurd he (Bool.eq_false_iff.mp (hbroke e rfl))
  · rwa [Lost, hconn] at hlost

/-- A branch that moves on without the connection, and does not break. -/
theorem outlasts_of_setPlace {b₁ : Board σ} {p : Place σ} {reason : Prop} (hl : Lasts b)
    (hs : Sane (b₁.setPlace i p)) (hconn : b₁.session.conn = b.session.conn)
    (hplaces : ∀ j, b₁.placeOf j = b.placeOf j) (hwaits : ¬ p.waits)
    (hbroke : ∀ e, p = .ended (.returned (.error e)) → e.isFatal = false) :
    Outlasts reason b (b₁.setPlace i p) := by
  refine outlasts_of_places hl hs hconn fun j q hq => ?_
  rw [placeOf_setPlace, hplaces] at hq
  split at hq
  · obtain ⟨_, _, rfl⟩ := Option.map_eq_some_iff.mp hq
    exact .inr ⟨hwaits, hbroke⟩
  · exact .inl hq

/-- Polled, a branch loses the session only if it breaks, or starts a shutdown. -/
theorem outlasts_of_goes (hl : Lasts b) (h : Goes T o i b b') :
    Outlasts (∃ grace, b.starts i = some (.shutdown grace)) b b' := by
  have hs : Sane b' := sane_of_goes hl.sane h
  -- an operation that starts, and one that goes on
  have hbegins : ∀ {b₁ : Board σ} {op : Operation}, b.starts i = some op → Held b₁ i →
      b₁.placeOf = b.placeOf →
      Driven T o i b₁ (b.session.conn.begin o op).1 (b.session.conn.begin o op).2 b' →
      Outlasts (∃ grace, b.starts i = some (.shutdown grace)) b b' := by
    intro b₁ op hop hheld hplaces hd
    refine outlasts_of_driven hl hheld hplaces hd (fits_begin o _ op) (falls_begin o hl.state op)
      fun hdown => ?_
    rcases down_of_begin hdown with hbefore | ⟨grace, rfl⟩
    · exact .inl hbefore
    · exact .inr (.inr ⟨grace, hop⟩)
  have hgoesOn : ∀ {w : σ} {op : Operation} {ph : Phase} {c : Connection} {p : Progress},
      b.holder = some i → op.Fits b.session.conn.state (.next ph) → (∀ q, ph ≠ .ask q) →
      Driven T o i (b.setWire w) c p b' → op.Fits c.state p →
      b.session.conn.state.Falls c.state →
      Outlasts (∃ grace, b.starts i = some (.shutdown grace)) b b' := by
    intro w op ph c p hi hfits hask hd hnext hfalls
    have hheld : Held (b.setWire w) i := held_setWire (held_of_sane hl.sane hi) w
    exact outlasts_of_driven hl hheld rfl hd hnext hfalls fun hdown =>
      (broke_of_phase hfits hask hnext hd hheld.there hdown).imp_right .inl
  cases h with
  | still => exact outlasts_self _ hl
  | rests _ _ _ _ hfree _ hends =>
      refine outlasts_of_setPlace hl hs rfl (placeOf_begun b i) hfree.1 fun e he => ?_
      exact nomatch hends _ he
  | rested => exact outlasts_of_setPlace hl hs rfl (fun _ => rfl) id nofun
  | refused =>
      refine outlasts_of_setPlace hl hs rfl (placeOf_begun b i) id fun e he => ?_
      cases he
      rfl
  | linesUp => exact outlasts_of_setPlace hl hs (by rfl) (placeOf_begun b i) id nofun
  | enters hasks hfree hd =>
      exact hbegins ((starts_of_free hfree).trans hasks) (held_of_begun hl.sane hasks hfree)
        (funext (placeOf_begun b i)) hd
  | handed hp hi hd => exact hbegins (starts_of_handed hi hp) (held_of_sane hl.sane hi) rfl hd
  | @wrote why s _ hp _ hd =>
      obtain ⟨op, line, hfits⟩ := hl.place i _ hp trivial
      exact hgoesOn (hl.sane.waits i _ hp trivial) hfits nofun hd (fits_written hfits s.result)
        (falls_written hl.state hfits s.result)
  | @read purpose w _ hp _ hd =>
      obtain ⟨op, id, hfits⟩ := hl.place i _ hp trivial
      exact hgoesOn (hl.sane.waits i _ hp trivial) hfits nofun hd (fits_settled hfits w.verdict)
        (falls_settled hl.state hfits w.verdict)
  | @stopped s _ hp _ hd =>
      obtain ⟨op, grace, hfits⟩ := hl.place i _ hp trivial
      exact hgoesOn (hl.sane.waits i _ hp trivial) hfits nofun hd (fits_stopped hfits s.result)
        (falls_refl _)

theorem outlasts_of_drops {reason : Prop} (hl : Lasts b) (h : Drops i b b') :
    Outlasts reason b b' := by
  have hs : Sane b' := sane_of_drops hl.sane h
  cases h with
  | gone => exact outlasts_self _ hl
  | idle => exact outlasts_of_setPlace hl hs rfl (fun _ => rfl) id nofun
  | leaves | letsGo =>
      -- the line and the holder do not matter
      refine outlasts_of_places hl hs rfl fun j p hp => ?_
      have hp' : (b.setPlace i (.ended .cancelled)).placeOf j = some p := hp
      rw [placeOf_setPlace] at hp'
      split at hp'
      · obtain ⟨_, _, rfl⟩ := Option.map_eq_some_iff.mp hp'
        exact .inr ⟨id, nofun⟩
      · exact .inl hp'

theorem outlasts_of_move (hl : Lasts b) (m : Move) :
    Outlasts (∃ i grace, b.starter m = some (i, .shutdown grace)) b (b.move T o m) := by
  rcases move_cases T o b m with ⟨i, b₁, rfl, h, hnext⟩ | ⟨i, _, hdrop⟩ | ⟨now, _, heq⟩
  · have hgoes : Outlasts (∃ j grace, b.starter (.poll i) = some (j, .shutdown grace)) b b₁ :=
      (outlasts_of_goes hl h).weaken fun ⟨grace, hop⟩ =>
        ⟨i, grace, by rw [starter, hop, Option.map_some]⟩
    rcases hnext with heq | hdrop
    · rw [heq]
      exact hgoes
    · exact outlasts_trans hgoes (outlasts_of_drops hgoes.lasts hdrop)
        (onward_of_drops hgoes.lasts.sane hdrop)
  · exact outlasts_of_drops hl hdrop
  · have hs : Sane (b.move T o m) := sane_of_move hl.sane m
    rw [heq] at hs ⊢
    exact outlasts_of_places hl hs rfl fun _ _ => .inl

/-- An open session lasts until a branch breaks or a shutdown starts. -/
theorem outlasts_of_moves (ms : List Move) : ∀ {b : Board σ}, Lasts b →
    Outlasts (∃ i grace, (i, .shutdown grace) ∈ b.along T o starter ms) b (b.moves T o ms) := by
  induction ms with
  | nil => exact fun hl => outlasts_self _ hl
  | cons m ms ih =>
      intro b hl
      have hfirst : Outlasts (∃ i grace, (i, .shutdown grace) ∈ b.along T o starter (m :: ms))
          b (b.move T o m) :=
        (outlasts_of_move hl m).weaken fun ⟨i, grace, hop⟩ => ⟨i, grace, by simp [hop]⟩
      have hrest : Outlasts (∃ i grace, (i, .shutdown grace) ∈ b.along T o starter (m :: ms))
          (b.move T o m) (b.moves T o (m :: ms)) :=
        (ih hfirst.lasts).weaken fun ⟨i, grace, hmem⟩ =>
          ⟨i, grace, List.mem_append_right _ hmem⟩
      exact outlasts_trans hfirst hrest (onward_of_moves ms hfirst.lasts.sane)

theorem broke_iff : (∃ i, b.Broke i) ↔ ∃ e ∈ b.errors, e.isFatal = true := by
  constructor
  · rintro ⟨i, e, hp, he⟩
    exact ⟨e, mem_errors_iff.mpr ⟨i, hp⟩, he⟩
  · rintro ⟨e, hmem, he⟩
    obtain ⟨i, hp⟩ := mem_errors_iff.mp hmem
    exact ⟨i, e, hp, he⟩

theorem lasts_start {s : Session σ} (hl : s.conn.state.Lasting) (branches : List Branch) :
    Lasts (Board.start s branches) := by
  refine ⟨sane_start s branches, hl, fun i p hp hwaits => ?_, ?_⟩
  · obtain ⟨u, rfl⟩ := placeOf_start hp
    exact hwaits.elim
  · rintro i ⟨e, hp, _⟩
    obtain ⟨u, hu⟩ := placeOf_start hp
    exact nomatch hu

end Boards

/-! ## Programs -/

namespace Program

variable {α : Type} {T : Transport σ} {o : ClientOptions} {deadline : Option Instant}

/-- What a program leaves of an open session in which its operations end with these errors,
and these operations start. -/
structure Spares (errors : List ClientError) (calls : List Operation) (s s' : Session σ) :
    Prop where
  falls : s.conn.state.Falls s'.conn.state
  /-- A fatal error loses the session. -/
  fatal : ∀ e ∈ errors, e.isFatal = true → s'.conn.state = .disconnected
  /-- Nothing else does, but a shutdown. -/
  cause : s'.conn.state = .disconnected → s.conn.state = .disconnected ∨
    (∃ e ∈ errors, e.isFatal = true) ∨ ∃ grace, .shutdown grace ∈ calls

theorem spares_of_gather (mode : Gather) (branches : List Branch) {s : Session σ}
    (hl : s.conn.state.Lasting) :
    Spares
      ((Board.start s branches).moves T o (gatherMoves T o mode deadline branches s)).errors
      (((Board.start s branches).along T o starter
        (gatherMoves T o mode deadline branches s)).map (·.2))
      s (Conformance.gather T o mode deadline branches s).1 := by
  rw [session_of_gather]
  have h := outlasts_of_moves (T := T) (o := o) (gatherMoves T o mode deadline branches s)
    (lasts_start hl branches)
  refine ⟨h.falls, fun e hmem he => ?_, fun hlost => ?_⟩
  · obtain ⟨i, hbroke⟩ := broke_iff.mpr ⟨e, hmem, he⟩
    exact h.lasts.broke i hbroke
  · refine (h.cause hlost).imp_right (Or.imp broke_iff.mp ?_)
    rintro ⟨i, grace, hmem⟩
    exact ⟨grace, List.mem_map_of_mem hmem⟩

theorem spares_trans {errors errors' : List ClientError} {calls calls' : List Operation}
    {s s' s'' : Session σ} (h : Spares errors calls s s') (h' : Spares errors' calls' s' s'') :
    Spares (errors ++ errors') (calls ++ calls') s s'' := by
  refine ⟨falls_trans h.falls h'.falls, fun e hmem he => ?_, fun hlost => ?_⟩
  · rcases List.mem_append.mp hmem with hmem | hmem
    · exact h'.falls.down (h.fatal e hmem he)
    · exact h'.fatal e hmem he
  · rcases h'.cause hlost with hbefore | ⟨e, hmem, he⟩ | ⟨grace, hmem⟩
    · rcases h.cause hbefore with hstart | ⟨e, hmem, he⟩ | ⟨grace, hmem⟩
      · exact .inl hstart
      · exact .inr (.inl ⟨e, List.mem_append_left _ hmem, he⟩)
      · exact .inr (.inr ⟨grace, List.mem_append_left _ hmem⟩)
    · exact .inr (.inl ⟨e, List.mem_append_right _ hmem, he⟩)
    · exact .inr (.inr ⟨grace, List.mem_append_right _ hmem⟩)

/-- An open session lasts through a program, but for a fatal error or a shutdown. -/
theorem spares_of_program (p : Program α) : ∀ {s : Session σ}, s.conn.state.Lasting →
    Spares (p.errors T o deadline s) (p.calls T o deadline s) s (p.run T o deadline s).1 := by
  refine fun {s} => rounds_induction
    (R := fun s l s' => s.conn.state.Lasting →
      Spares (l.flatMap fun r => (r.1.moves T o r.2).errors)
        (l.flatMap fun r => (r.1.along T o starter r.2).map (·.2)) s s')
    (fun s now _ => ⟨falls_refl _, nofun, .inl⟩) (fun mode branches s hl => ?_)
    (fun s₁ s₂ s₃ l l' h h' hl => ?_) p s
  · simp only [List.flatMap_singleton]
    exact spares_of_gather mode branches hl
  · rw [List.flatMap_append, List.flatMap_append]
    exact spares_trans (h hl) (h' (hl.falls (h hl).falls))

end Program

end Conformance
