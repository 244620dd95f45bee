/-
Conformance — two runs in step.

A program runs alike on two servers of which one puts skippable lines in (`Pads`).  `Mirrors` is the
invariant of the two boards: they are alike, and where a branch reads, its two waits are foretold to
end alike (`Foretold`).  A drive of the holder keeps it (`mirrors_of_driven`), so a poll and a drop
keep it, and the schedule makes the same moves on both boards (`mirrors_of_run`).

That is so as long as no wait of the first run comes to read, at the very instant of its deadline, an
item that is not skippable (`ClearOfDeadlines`).  Nothing is asked of the second run.
-/
import Conformance.Proofs.Session.Padding
import Conformance.Proofs.Session.Trace

namespace Conformance

open Board

/-! ## The invariant -/

variable {σ τ : Type}

namespace Board

/-- Two boards on which everything goes alike. -/
structure Mirrors (T : Transport σ) (T' : Transport τ) (R : σ → τ → Prop) (b : Board σ)
    (b' : Board τ) : Prop where
  like : Like R b b'
  sane : Sane b
  reads : ∀ i purpose purpose' w w', b.placeOf i = some (.reading purpose w) →
    b'.placeOf i = some (.reading purpose' w') →
    ∀ t, Foretold (T.arrivals t b.session.wire) (T'.arrivals t b'.session.wire) w w'

/-- The wait that starts when a branch is polled, and what the session is then. -/
def beginsWait (T : Transport σ) (o : ClientOptions) (b : Board σ) :
    Move → Option (Session σ × Wait)
  | .poll i =>
      match b.tasks[i]? with
      | none => none
      | some t =>
          match t.place, (goOn T o i t b).placeOf i with
          | .reading _ _, _ => none
          | _, some (.reading _ w) => some ((goOn T o i t b).session, w)
          | _, _ => none
  | _ => none

end Board

/-- A wait that starts in a session reads nothing at its deadline but skippable lines. -/
def ClearOfDeadline (T : Transport σ) (o : ClientOptions) (x : Session σ × Wait) : Prop :=
  NoneAtDeadline (x.1.now + o.requestTimeout) (T.arrivals x.1.now x.1.wire) x.2

/-- All waits that start in a program are such. -/
def Program.ClearOfDeadlines {α : Type} (T : Transport σ) (o : ClientOptions)
    (deadline : Option Instant) (p : Program α) (s : Session σ) : Prop :=
  ∀ r ∈ p.rounds T o deadline s, ∀ x ∈ r.1.along T o (beginsWait T o) r.2, ClearOfDeadline T o x

/-! ## One move -/

section Moves

variable {T : Transport σ} {T' : Transport τ} {R : σ → τ → Prop} {o : ClientOptions}
variable {b : Board σ} {b' : Board τ} {i : Nat}

/-- A question gets the same answer. -/
theorem like_of_look (h : Pads T T' R) {s : Session σ} {s' : Session τ} (hs : Session.Like R s s')
    (q : Query) : Session.Like R (look T s q).1 (look T' s' q).1 ∧
      (look T' s' q).2 = (look T s q).2 := by
  obtain ⟨hnow, hconn, hwire⟩ := hs
  cases q with
  | connected =>
      obtain ⟨hkept, hup⟩ := h.connected s.now s.wire s'.wire hwire
      rw [← hnow] at hkept hup
      by_cases hgone : s.conn.state = .disconnected
      · simp only [look, hconn, hgone, if_true]
        exact ⟨⟨hnow, hconn, hwire⟩, trivial⟩
      · simp only [look, hconn, hgone, if_false]
        rw [hnow] at hkept hup ⊢
        exact ⟨⟨rfl, rfl, hkept⟩, congrArg Reply.connected hup⟩
  | stderr => exact ⟨⟨hnow, hconn, hwire⟩, by simp only [look, hnow, h.stderr _ _ _ hwire]⟩
  | state | server | lastId => exact ⟨⟨hnow, hconn, hwire⟩, by simp only [look, hconn]⟩

theorem sending_of_like (h : Pads T T' R) (hl : Like R b b') (line : String) :
    Sending.Like R (b.sending T line) (b'.sending T' line) := by
  simp only [sending, hl.session.now]
  exact h.write _ line _ _ hl.session.wire

theorem stopping_of_like (h : Pads T T' R) (hl : Like R b b') (grace : Duration) :
    Stopping.Like R (T.stop b.session.now grace b.session.wire)
      (T'.stop b'.session.now grace b'.session.wire) := by
  rw [hl.session.now]
  exact h.stop _ grace _ _ hl.session.wire

/-- The holder ends, and nobody waits. -/
theorem mirrors_of_ended (hheld : Held b i) (h : Like R b b') (e : Ending) :
    Mirrors T T' R (b.setPlace i (.ended e)).release (b'.setPlace i (.ended e)).release where
  like := like_release (like_setPlace h (.ended e) i)
  sane := sane_of_ended hheld e
  reads := fun _ _ _ _ _ hp => absurd trivial (not_waits_of_ended hheld e hp)

/-- The holder goes to wait; if it reads, its two waits are foretold. -/
theorem mirrors_of_waits (hheld : Held b i) (h : Like R b b') {p : Place σ} {p' : Place τ}
    (hwaits : p.waits) (hp : Place.Like R p p')
    (hreads : ∀ purpose purpose' w w', p = .reading purpose w → p' = .reading purpose' w' →
      ∀ t, Foretold (T.arrivals t b.session.wire) (T'.arrivals t b'.session.wire) w w') :
    Mirrors T T' R (b.setPlace i p) (b'.setPlace i p') where
  like := like_setPlace h hp i
  sane := sane_of_waits hheld hwaits
  reads := by
    intro j purpose purpose' w w' hj hj'
    by_cases hij : j = i
    · subst hij
      exact hreads purpose purpose' w w' (eq_of_setPlace hj).symm (eq_of_setPlace hj').symm
    · rw [placeOf_setPlace_ne _ hij] at hj
      exact absurd trivial (hheld.others j _ hij hj)

/-- A branch goes to a place at which nothing is waited for, and the line changes with it. -/
theorem mirrors_of_lined (h : Mirrors T T' R b b') (line : List Nat) {p : Place σ} {p' : Place τ}
    (hp : Place.Like R p p') (hidle : ¬ p.waits)
    (hsane : Sane ({ b with line }.setPlace i p)) :
    Mirrors T T' R ({ b with line }.setPlace i p) ({ b' with line }.setPlace i p') where
  like := like_setPlace (show Board.Like R { b with line } { b' with line } from
    ⟨h.like.session, h.like.holder, rfl, h.like.tasks⟩) hp i
  sane := hsane
  reads := by
    intro j purpose purpose' w w' hj hj'
    by_cases hij : j = i
    · subst hij
      rw [← eq_of_setPlace hj] at hidle
      exact absurd trivial hidle
    · rw [placeOf_setPlace_ne _ hij] at hj hj'
      exact h.reads j purpose purpose' w w' hj hj'

theorem mirrors_of_moved (h : Mirrors T T' R b b') {p : Place σ} {p' : Place τ}
    (hp : Place.Like R p p') (hidle : ¬ p.waits) (hsane : Sane (b.setPlace i p)) :
    Mirrors T T' R (b.setPlace i p) (b'.setPlace i p') := by
  have hb' : ({ b' with line := b.line } : Board τ) = b' := by rw [← h.like.line]
  have hlined := mirrors_of_lined h b.line hp hidle hsane
  rwa [hb'] at hlined

theorem mirrors_begun (h : Mirrors T T' R b b') (i : Nat) :
    Mirrors T T' R (b.begun i) (b'.begun i) where
  like := like_begun h.like i
  sane := sane_begun h.sane i
  reads := by
    intro j purpose purpose' w w' hj hj'
    rw [placeOf_begun] at hj hj'
    exact h.reads j purpose purpose' w w' hj hj'

/-- The holder is driven to one board only. -/
theorem driven_unique {b₁ : Board σ} {c : Connection} {p : Progress}
    (h : Driven T o i b c p b₁) : ∀ {b₂ : Board σ}, Driven T o i b c p b₂ → b₁ = b₂ := by
  induction h with
  | ended =>
      intro b₂ h
      cases h
      rfl
  | told hlook =>
      intro b₂ h
      cases h with
      | told hlook' =>
          cases hlook.symm.trans hlook'
          rfl
  | overflows hclock =>
      intro b₂ h
      cases h with
      | overflows => rfl
      | reads hclock' | read hclock' => exact absurd hclock (Nat.not_le.mpr hclock')
  | reads hclock hends =>
      intro b₂ h
      cases h with
      | overflows hclock' => exact absurd hclock' (Nat.not_le.mpr hclock)
      | reads => rfl
      | read _ hends' => exact absurd hends' (Nat.not_le.mpr hends)
  | read hclock hends hsettled _ ih =>
      intro b₂ h
      cases h with
      | overflows hclock' => exact absurd hclock' (Nat.not_le.mpr hclock)
      | reads _ hends' => exact absurd hends (Nat.not_le.mpr hends')
      | read _ _ hsettled' hrest =>
          cases hsettled.symm.trans hsettled'
          exact ih hrest
  | writes hends =>
      intro b₂ h
      cases h with
      | writes => rfl
      | wrote hends' => exact nomatch hends.symm.trans hends'
  | wrote hends hwritten _ ih =>
      intro b₂ h
      cases h with
      | writes hends' => exact nomatch hends.symm.trans hends'
      | wrote _ hwritten' hrest =>
          cases hwritten.symm.trans hwritten'
          exact ih hrest
  | stops hends =>
      intro b₂ h
      cases h with
      | stops => rfl
      | stopped hends' => exact absurd hends' (Nat.not_le.mpr hends)
  | stopped hends hstopped _ ih =>
      intro b₂ h
      cases h with
      | stops hends' => exact absurd hends (Nat.not_le.mpr hends')
      | stopped _ hstopped' hrest =>
          cases hstopped.symm.trans hstopped'
          exact ih hrest

/-- The waits that start alike are foretold, if the first reads nothing at its deadline that is not
skippable. -/
theorem foretold_of_like (h : Pads T T' R) (hl : Like R b b') (c : Connection) (id : Nat)
    (hclear : ClearOfDeadline T o (b.session, b.waitFor T o c id)) :
    ∀ t, Foretold (T.arrivals t b.session.wire) (T'.arrivals t b'.session.wire)
      (b.waitFor T o c id) (b'.waitFor T' o c id) := by
  intro t
  rw [h.steady b.session.now t, h.steady' b.session.now t]
  simp only [waitFor, hl.session.now]
  exact await_padded (h.arrivals _ _ _ hl.session.wire) hclear

/-- The holder is driven alike.  The induction is on its phases; with at most two of them left there
is no wait for a response any more. -/
theorem mirrors_of_driven (h : Pads T T' R) {b₁ : Board σ} {c : Connection} {p : Progress}
    (hd : Driven T o i b c p b₁) : ∀ {b' : Board τ}, Held b i → Like R b b' →
      (∀ purpose w, 2 < p.rank → b₁.placeOf i = some (.reading purpose w) →
        ClearOfDeadline T o (b₁.session, w)) →
      ∃ b₁', Driven T' o i b' c p b₁' ∧ Mirrors T T' R b₁ b₁' := by
  induction hd with
  | @ended b c r =>
      intro b' hheld hl _
      exact ⟨_, .ended, mirrors_of_ended (held_setConn hheld c) (like_setConn hl c) _⟩
  | @told b c q s r hlook =>
      intro b' hheld hl _
      obtain ⟨hsession, hreply⟩ := like_of_look h (like_setConn hl c).session q
      rw [hlook] at hsession hreply
      cases hlook' : look T' (b'.setConn c).session q with
      | mk s' r' =>
          rw [hlook'] at hsession hreply
          cases hreply
          exact ⟨_, .told hlook', mirrors_of_ended (held_setSession (held_setConn hheld c) s)
            (like_setSession (like_setConn hl c) hsession) _⟩
  | @overflows b c purpose id hclock =>
      intro b' hheld hl _
      rw [← hl.session.now] at hclock
      exact ⟨_, .overflows hclock, mirrors_of_ended (held_setConn hheld c) (like_setConn hl c) _⟩
  | @reads b c purpose id hclock hends =>
      intro b' hheld hl hclear
      have hself := placeOf_setPlace_self (b := b.setConn c)
        (.reading purpose (b.waitFor T o c id)) hheld.there
      have hforetold := foretold_of_like h hl c id (hclear purpose _ (Nat.lt_succ_self 2) hself)
      have hlike := hforetold 0
      rw [← hl.session.now] at hclock
      rw [← hlike.ends, ← hl.session.now] at hends
      refine ⟨_, .reads hclock hends, ?_⟩
      refine mirrors_of_waits (held_setConn hheld c) (like_setConn hl c) trivial
        (.reading purpose hlike.ends hlike.verdict) ?_
      rintro _ _ w w' hw hw'
      cases hw
      cases hw'
      exact hforetold
  | @read b b₁ c c' p' purpose id hclock hends hsettled hrest ih =>
      intro b' hheld hl hclear
      have hforetold := foretold_of_like h hl c id (noneAtDeadline_of_ended hends)
      have hlike := hforetold b.session.now
      have hwire := h.take b.session.now _ _ _ _ hl.session.wire hlike.whole
      obtain ⟨b₁', hd, hmirrors⟩ := ih (held_setWire (held_setConn hheld c) _)
        (like_setWire (like_setConn hl c) hwire) (by
          intro _ _ hrank
          have hle := rank_settled c purpose (b.waitFor T o c id).verdict
          rw [hsettled] at hle
          exact absurd hrank (Nat.not_lt.mpr hle))
      rw [← hl.session.now] at hclock
      rw [← hlike.ends, ← hl.session.now] at hends
      rw [← hlike.verdict] at hsettled
      rw [← hl.session.now] at hd
      exact ⟨b₁', .read hclock hends hsettled hd, hmirrors⟩
  | @writes b c why line hends =>
      intro b' hheld hl _
      have hs := sending_of_like h hl line
      rw [← hs.ends, ← hl.session.now] at hends
      exact ⟨_, .writes hends, mirrors_of_waits (held_setConn hheld c) (like_setConn hl c) trivial
        (.writing why hs) fun _ _ _ _ hread => by cases hread⟩
  | @wrote b b₁ c c' p' why line hends hwritten hrest ih =>
      intro b' hheld hl hclear
      have hs := sending_of_like h hl line
      obtain ⟨b₁', hd, hmirrors⟩ := ih (held_setWire (held_setConn hheld c) _)
        (like_setWire (like_setConn hl c) hs.after) (by
          intro purpose w hrank
          have hlt := rank_written c why line (b.sending T line).result
          rw [hwritten] at hlt
          exact hclear purpose w (Nat.lt_trans hrank hlt))
      rw [← hs.ends, ← hl.session.now] at hends
      rw [← hs.result] at hwritten
      exact ⟨b₁', .wrote hends hwritten hd, hmirrors⟩
  | @stops b c grace hends =>
      intro b' hheld hl _
      have hs := stopping_of_like h hl grace
      rw [← hs.ends, ← hl.session.now] at hends
      exact ⟨_, .stops hends, mirrors_of_waits (held_setConn hheld c) (like_setConn hl c) trivial
        (.stopping hs) fun _ _ _ _ hread => by cases hread⟩
  | @stopped b b₁ c c' p' grace hends hstopped hrest ih =>
      intro b' hheld hl _
      have hs := stopping_of_like h hl grace
      obtain ⟨b₁', hd, hmirrors⟩ := ih (held_setWire (held_setConn hheld c) _)
        (like_setWire (like_setConn hl c) hs.after) (by
          intro _ _ hrank
          cases hstopped
          exact absurd hrank (Nat.not_lt.mpr (Nat.le_succ 1)))
      rw [← hs.ends, ← hl.session.now] at hends
      rw [← hs.result] at hstopped
      exact ⟨b₁', .stopped hends hstopped hd, hmirrors⟩

/-- The drive of the schedule goes alike. -/
theorem mirrors_of_drive (h : Pads T T' R) {x : Connection × Progress} (hheld : Held b i)
    (hl : Like R b b')
    (hclear : ∀ purpose w, 2 < x.2.rank →
      (drive T o i phases b x).placeOf i = some (.reading purpose w) →
        ClearOfDeadline T o ((drive T o i phases b x).session, w)) :
    Mirrors T T' R (drive T o i phases b x) (drive T' o i phases b' x) := by
  obtain ⟨b₁', hd, hmirrors⟩ :=
    mirrors_of_driven h (driven_phases T o i b x.1 x.2) hheld hl hclear
  rwa [driven_unique (driven_phases T' o i b' x.1 x.2) hd]

variable {t : Task σ} {t' : Task τ}

/-- A branch that enters holds the connection. -/
theorem mirrors_of_enter (h : Pads T T' R) {op : Operation} (hheld : Held b i) (hl : Like R b b')
    (hclear : ∀ purpose w, (enter T o i op b).placeOf i = some (.reading purpose w) →
      ClearOfDeadline T o ((enter T o i op b).session, w)) :
    Mirrors T T' R (enter T o i op b) (enter T' o i op b') := by
  rw [enter, enter, hl.session.conn]
  exact mirrors_of_drive h hheld hl fun purpose w _ => hclear purpose w

/-- A branch asks for the connection on both boards. -/
theorem mirrors_of_acquire (h : Pads T T' R) {op : Operation} (hm : Mirrors T T' R b b') {u : Instant}
    (hp : b.placeOf i = some (.pausing u))
    (hclear : ∀ purpose w, (acquire T o i op b).placeOf i = some (.reading purpose w) →
      ClearOfDeadline T o ((acquire T o i op b).session, w)) :
    Mirrors T T' R (acquire T o i op b) (acquire T' o i op b') := by
  by_cases hfree : b.holder = none
  · have hfree' : b'.holder = none := hm.like.holder.trans hfree
    rw [acquire_of_free hfree] at hclear ⊢
    rw [acquire_of_free hfree']
    exact mirrors_of_enter h (held_of_free hm.sane hfree (by rw [hp]; rfl))
      ⟨hm.like.session, rfl, hm.like.line, hm.like.tasks⟩ hclear
  · have hfree' : b'.holder ≠ none := fun hnone => hfree (hm.like.holder.symm.trans hnone)
    rw [acquire_of_held hfree, acquire_of_held hfree']
    split
    · exact mirrors_of_moved hm (.ended _) id (sane_of_moved hm.sane hp ⟨id, id⟩ id)
    · rw [hm.like.line]
      exact mirrors_of_lined hm _ (.queued op) id
        (sane_of_lines_up op hm.sane hp ⟨id, id⟩ hfree)

/-- The pause of a branch is over on both boards. -/
theorem mirrors_of_beginWork (h : Pads T T' R) (hm : Mirrors T T' R b b') {u : Instant}
    {place : Place σ} {place' : Place τ} {work : Work} {limit : Option Duration}
    {dropAt : Option Instant} (hp : b.placeOf i = some (.pausing u))
    (hclear : ∀ purpose w,
      (beginWork T o i ⟨place, work, limit, dropAt⟩ b).placeOf i = some (.reading purpose w) →
        ClearOfDeadline T o ((beginWork T o i ⟨place, work, limit, dropAt⟩ b).session, w)) :
    Mirrors T T' R (beginWork T o i ⟨place, work, limit, dropAt⟩ b)
      (beginWork T' o i ⟨place', work, limit, dropAt⟩ b') := by
  have hbegun : Mirrors T T' R (b.begun i) (b'.begun i) := mirrors_begun hm i
  have hplace : (b.begun i).placeOf i = some (.pausing u) := (placeOf_begun b i i).trans hp
  cases work with
  | use op => exact mirrors_of_acquire h hbegun hplace hclear
  | rest d =>
      have hmoved : ∀ {p : Place σ} {p' : Place τ}, Place.Like R p p' → ¬ p.waits →
          Mirrors T T' R ((b.begun i).setPlace i p) ((b'.begun i).setPlace i p') :=
        fun hlike hidle => mirrors_of_moved hbegun hlike hidle
          (sane_of_moved hbegun.sane hplace ⟨id, id⟩ hidle)
      have hrests : Place.Like R (.resting (b.session.now + d)) (.resting (b'.session.now + d)) := by
        rw [hm.like.session.now]
        exact .resting _
      simp only [beginWork]
      split
      · exact hmoved (.ended _) id
      · exact hmoved hrests id

/-- A branch goes on alike. -/
theorem mirrors_of_goOn (h : Pads T T' R) (hm : Mirrors T T' R b b') (ht : b.tasks[i]? = some t)
    (ht' : b'.tasks[i]? = some t') (hlike : Task.Like R t t')
    (hclear : ∀ x, beginsWait T o b (.poll i) = some x → ClearOfDeadline T o x) :
    Mirrors T T' R (goOn T o i t b) (goOn T' o i t' b') := by
  have hplace : b.placeOf i = some t.place := placeOf_of_task ht
  have hplace' : b'.placeOf i = some t'.place := placeOf_of_task ht'
  have hstarts : (∀ purpose w, t.place ≠ .reading purpose w) → ∀ purpose w,
      (goOn T o i t b).placeOf i = some (.reading purpose w) →
        ClearOfDeadline T o ((goOn T o i t b).session, w) := by
    intro hnot purpose w hread
    refine hclear _ ?_
    simp only [beginsWait, ht, hread]
  have hheld : t.place.waits → ∀ w, Held (b.setWire w) i := fun hwaits w =>
    held_setWire (held_of_sane hm.sane (hm.sane.waits i _ hplace hwaits)) w
  obtain ⟨place, work, limit, dropAt⟩ := t
  obtain ⟨place', work', limit', dropAt'⟩ := t'
  obtain ⟨hp, hwork, hlimit, hdrop⟩ := hlike
  dsimp only at hp hwork hlimit hdrop hplace hplace' hstarts hheld
  subst hwork hlimit hdrop
  have hsnow : b'.session.now = b.session.now := hm.like.session.now
  have hconn : b'.session.conn = b.session.conn := hm.like.session.conn
  cases hp with
  | pausing u =>
      have hstarts := hstarts fun _ _ hread => by cases hread
      simp only [goOn, hsnow] at hstarts ⊢
      by_cases hu : b.session.now < u
      · rw [if_pos hu, if_pos hu]
        exact hm
      rw [if_neg hu] at hstarts ⊢
      rw [if_neg hu]
      exact mirrors_of_beginWork h hm hplace hstarts
  | resting u =>
      simp only [goOn, hsnow]
      split
      · exact hm
      · exact mirrors_of_moved hm (.ended _) id (sane_of_moved hm.sane hplace ⟨id, id⟩ id)
  | queued op =>
      have hstarts := hstarts fun _ _ hread => by cases hread
      simp only [goOn, hm.like.holder] at hstarts ⊢
      by_cases hi : b.holder = some i
      · rw [if_pos hi] at hstarts ⊢
        rw [if_pos hi]
        exact mirrors_of_enter h (held_of_sane hm.sane hi) hm.like hstarts
      · rw [if_neg hi, if_neg hi]
        exact hm
  | @writing why s s' hs =>
      have hstarts := hstarts fun _ _ hread => by cases hread
      simp only [goOn, hsnow, hs.ends, hs.result, hconn] at hstarts ⊢
      by_cases hends : (s.ends.any fun x => decide (x ≤ b.session.now)) = true
      · rw [if_pos hends] at hstarts ⊢
        rw [if_pos hends]
        exact mirrors_of_drive h (hheld trivial _) (like_setWire hm.like hs.after)
          fun purpose w _ => hstarts purpose w
      · rw [if_neg hends, if_neg hends]
        exact hm
  | @reading purpose w w' hends hverdict =>
      have hforetold := hm.reads i purpose purpose w w' hplace hplace' b.session.now
      have hwire := h.take b.session.now _ _ _ _ hm.like.session.wire hforetold.whole
      simp only [goOn, hsnow, hends, hverdict, hconn]
      split
      · exact hm
      · refine mirrors_of_drive h (hheld trivial _) (like_setWire hm.like hwire) ?_
        exact fun _ _ hrank => absurd hrank (Nat.not_lt.mpr (rank_settled _ _ _))
  | @stopping s s' hs =>
      simp only [goOn, hsnow, hs.ends, hs.result, hconn]
      split
      · exact hm
      · refine mirrors_of_drive h (hheld trivial _) (like_setWire hm.like hs.after) ?_
        exact fun _ _ hrank => absurd hrank (Nat.not_lt.mpr (Nat.le_succ 1))
  | ended e => exact hm

/-- A branch is dropped alike. -/
theorem mirrors_of_drop (h : Pads T T' R) (hm : Mirrors T T' R b b') (ht : b.tasks[i]? = some t)
    (ht' : b'.tasks[i]? = some t') (hlike : Task.Like R t t') :
    Mirrors T T' R (drop T i t b) (drop T' i t' b') := by
  have hplace : b.placeOf i = some t.place := placeOf_of_task ht
  have hplace' : b'.placeOf i = some t'.place := placeOf_of_task ht'
  obtain ⟨place, work, limit, dropAt⟩ := t
  obtain ⟨place', work', limit', dropAt'⟩ := t'
  obtain ⟨hp, hwork, hlimit, hdrop⟩ := hlike
  dsimp only at hp hplace hplace'
  have hsnow : b'.session.now = b.session.now := hm.like.session.now
  have hheld : place.waits → ∀ w, Held (b.setWire w) i := fun hwaits w =>
    held_setWire (held_of_sane hm.sane (hm.sane.waits i _ hplace hwaits)) w
  cases hp with
  | pausing | resting =>
      exact mirrors_of_moved hm (.ended _) id (sane_of_moved hm.sane hplace ⟨id, id⟩ id)
  | queued op =>
      have hline : (b'.setPlace i (.ended .cancelled)).line = b.line := hm.like.line
      simp only [drop, hm.like.holder, hline]
      by_cases hi : b.holder = some i
      · rw [if_pos hi, if_pos hi]
        exact mirrors_of_ended (held_of_sane hm.sane hi) hm.like _
      · rw [if_neg hi, if_neg hi]
        exact mirrors_of_lined hm _ (.ended _) id
          (sane_of_leaves .cancelled hm.sane hi (by rw [hplace]; rfl))
  | @writing why s s' hs =>
      simp only [drop, hsnow]
      exact mirrors_of_ended (hheld trivial _) (like_setWire hm.like (hs.dropped _)) _
  | @reading purpose w w' hends hverdict =>
      have hforetold := hm.reads i purpose purpose w w' hplace hplace' b.session.now
      have hwire := h.take b.session.now _ _ _ _ hm.like.session.wire
        (hforetold.dropped b.session.now)
      simp only [drop, hsnow]
      exact mirrors_of_ended (hheld trivial _) (like_setWire hm.like hwire) _
  | @stopping s s' hs =>
      simp only [drop]
      exact mirrors_of_ended (hheld trivial _) (like_setWire hm.like hs.dropped) _
  | ended e => exact hm

/-- A branch is polled alike. -/
theorem mirrors_of_poll (h : Pads T T' R) (hm : Mirrors T T' R b b') (i : Nat)
    (hclear : ∀ x, beginsWait T o b (.poll i) = some x → ClearOfDeadline T o x) :
    Mirrors T T' R (poll T o b i) (poll T' o b' i) := by
  rcases tasks_of_like hm.like i with ⟨ht, ht'⟩ | ⟨t, t', ht, ht', hlike⟩
  · simp only [poll, ht, ht']
    exact hm
  · have hgone := mirrors_of_goOn h hm ht ht' hlike hclear
    simp only [poll, ht, ht']
    rcases tasks_of_like hgone.like i with ⟨hu, hu'⟩ | ⟨u, u', hu, hu', hlike'⟩
    · simp only [hu, hu']
      exact hgone
    · simp only [hu, hu', hlike'.dropAt, hgone.like.session.now]
      split
      · exact mirrors_of_drop h hgone hu hu' hlike'
      · exact hgone

theorem mirrors_of_dropAt (h : Pads T T' R) (hm : Mirrors T T' R b b') (i : Nat) :
    Mirrors T T' R (Board.dropAt T b i) (Board.dropAt T' b' i) := by
  rcases tasks_of_like hm.like i with ⟨ht, ht'⟩ | ⟨t, t', ht, ht', hlike⟩
  · simp only [Board.dropAt, ht, ht']
    exact hm
  · simp only [Board.dropAt, ht, ht']
    exact mirrors_of_drop h hm ht ht' hlike

theorem mirrors_of_setNow (hm : Mirrors T T' R b b') (now : Instant) :
    Mirrors T T' R (b.setNow now) (b'.setNow now) where
  like := ⟨⟨rfl, hm.like.session.conn, hm.like.session.wire⟩, hm.like.holder, hm.like.line,
    hm.like.tasks⟩
  sane := sane_congr (b := b) rfl rfl (fun _ => rfl) hm.sane
  reads := hm.reads

end Moves

/-! ## The schedule -/

section Schedule

variable {T : Transport σ} {T' : Transport τ} {R : σ → τ → Prop} {o : ClientOptions}
variable {mode : Gather} {deadline : Option Instant}

theorem mirrors_of_pass (h : Pads T T' R) (is : List Nat) : ∀ {b : Board σ} {b' : Board τ},
    Mirrors T T' R b b' →
    (∀ x ∈ b.along T o (beginsWait T o) (passMoves T o mode is b), ClearOfDeadline T o x) →
    Mirrors T T' R (Board.pass T o mode is b).1 (Board.pass T' o mode is b').1 ∧
      (Board.pass T' o mode is b').2 = (Board.pass T o mode is b).2 := by
  induction is with
  | nil => exact fun hm _ => ⟨hm, rfl⟩
  | cons i rest ih =>
      intro b b' hm hclear
      rw [passMoves, along_cons] at hclear
      have hpoll : Mirrors T T' R (poll T o b i) (poll T' o b' i) :=
        mirrors_of_poll h hm i fun x hx =>
          hclear x (List.mem_append_left _ (Option.mem_toList.mpr hx))
      have hstops : ((poll T' o b' i).tasks[i]?).any (Task.stops mode)
          = ((poll T o b i).tasks[i]?).any (Task.stops mode) := by
        rcases tasks_of_like hpoll.like i with ⟨ht, ht'⟩ | ⟨t, t', ht, ht', hlike⟩
        · rw [ht, ht']
          rfl
        · rw [ht, ht', Option.any_some, Option.any_some, stops_of_like mode hlike]
      simp only [Board.pass, hstops]
      by_cases hstop : ((poll T o b i).tasks[i]?).any (Task.stops mode) = true
      · rw [if_pos hstop, if_pos hstop]
        exact ⟨hpoll, rfl⟩
      · rw [if_neg hstop] at hclear
        rw [if_neg hstop, if_neg hstop]
        exact ih hpoll fun x hx => hclear x (List.mem_append_right _ hx)

theorem mirrors_of_dropAll (h : Pads T T' R) {b : Board σ} {b' : Board τ}
    (hm : Mirrors T T' R b b') : Mirrors T T' R (dropAll T b) (dropAll T' b') := by
  have hfold : ∀ (is : List Nat) {b : Board σ} {b' : Board τ}, Mirrors T T' R b b' →
      Mirrors T T' R (is.foldl (Board.dropAt T) b) (is.foldl (Board.dropAt T') b') := by
    intro is
    induction is with
    | nil => exact fun hm => hm
    | cons i rest ih => exact fun hm => ih (mirrors_of_dropAt h hm i)
  have hlength := length_of_like hm.like
  show Mirrors T T' R ((List.range b.tasks.length).foldl (Board.dropAt T) b)
    ((List.range b'.tasks.length).foldl (Board.dropAt T') b')
  rw [hlength]
  exact hfold _ hm

/-- After a round the same follows on both boards. -/
theorem sequel_of_like {b : Board σ} {b' : Board τ} (h : Like R b b') (stopped : Bool) :
    b'.sequel deadline stopped = b.sequel deadline stopped := by
  simp only [sequel, all_ended_of_like h, handedOver_of_like h, nextWake_of_like h, h.session.now]

theorem mirrors_of_clockTo {b : Board σ} {b' : Board τ} (hm : Mirrors T T' R b b') :
    ∀ clock, Mirrors T T' R (b.clockTo clock) (b'.clockTo clock)
  | none => hm
  | some now => mirrors_of_setNow hm now

/-- A run makes the same moves on both boards. -/
theorem mirrors_of_run (h : Pads T T' R) (fuel : Nat) : ∀ {b : Board σ} {b' : Board τ},
    Mirrors T T' R b b' →
    (∀ x ∈ b.along T o (beginsWait T o) (runMoves T o mode deadline fuel b),
      ClearOfDeadline T o x) →
    Mirrors T T' R (Board.run T o mode deadline fuel b).1 (Board.run T' o mode deadline fuel b').1 ∧
      (Board.run T' o mode deadline fuel b').2 = (Board.run T o mode deadline fuel b).2 := by
  induction fuel with
  | zero => exact fun hm _ => ⟨mirrors_of_dropAll h hm, rfl⟩
  | succ fuel ih =>
      intro b b' hm hclear
      have hlength : b'.tasks.length = b.tasks.length := length_of_like hm.like
      cases hrun : Board.pass T o mode (List.range b.tasks.length) b with
      | mk b₁ stopped =>
      cases hrun' : Board.pass T' o mode (List.range b.tasks.length) b' with
      | mk b₁' stopped' =>
      have hmoves : b.moves T o (passMoves T o mode (List.range b.tasks.length) b) = b₁ := by
        rw [← pass_eq_moves, hrun]
      rw [runMoves_of_pass fuel hrun, along_append, hmoves] at hclear
      have hpass := mirrors_of_pass h (List.range b.tasks.length) hm
        fun x hx => hclear x (List.mem_append_left _ hx)
      have hrest := fun x hx => hclear x (List.mem_append_right _ hx)
      rw [hrun, hrun'] at hpass
      obtain ⟨hpass, rfl⟩ := hpass
      rw [run_of_pass fuel hrun, run_of_pass fuel (by rw [hlength, hrun']),
        sequel_of_like hpass.like]
      cases hseq : b₁.sequel deadline stopped' with
      | done => exact ⟨mirrors_of_dropAll h hpass, rfl⟩
      | cut clock => exact ⟨mirrors_of_dropAll h (mirrors_of_clockTo hpass clock), rfl⟩
      | again clock =>
          rw [hseq, along_append, ← clockTo_eq_moves] at hrest
          exact ih (mirrors_of_clockTo hpass clock)
            fun x hx => hrest x (List.mem_append_right _ hx)

theorem mirrors_start {s : Session σ} {s' : Session τ} (hs : Session.Like R s s')
    (branches : List Branch) : Mirrors T T' R (Board.start s branches) (Board.start s' branches) where
  like := by
    refine ⟨hs, rfl, rfl, ?_⟩
    simp only [Board.start, hs.now, List.forall₂_map_left_iff, List.forall₂_map_right_iff]
    exact List.forall₂_same.mpr fun _ _ => ⟨.pausing _, rfl, rfl, rfl⟩
  sane := sane_start s branches
  reads := by
    intro i purpose purpose' w w' hp
    obtain ⟨u, hu⟩ := placeOf_start hp
    cases hu

/-- Branches side by side end alike. -/
theorem like_of_gather (h : Pads T T' R) {s : Session σ} {s' : Session τ} (hs : Session.Like R s s')
    (branches : List Branch)
    (hclear : ∀ x ∈ (Board.start s branches).along T o (beginsWait T o)
      (gatherMoves T o mode deadline branches s), ClearOfDeadline T o x) :
    Session.Like R (gather T o mode deadline branches s).1
        (gather T' o mode deadline branches s').1 ∧
      (gather T' o mode deadline branches s').2 = (gather T o mode deadline branches s).2 := by
  obtain ⟨hm, hflag⟩ := mirrors_of_run h _ (mirrors_start hs branches) hclear
  have hendings := map_of_like (f := ending) (g := ending) (fun _ _ => ending_of_like) hm.like
  rw [gather_eq, gather_eq]
  dsimp only
  rw [hflag, hendings]
  exact ⟨hm.like.session, rfl⟩

end Schedule

/-- Skippable lines make no difference to a program, unless it reads something else at the very
instant of a deadline. -/
theorem like_of_program {T : Transport σ} {T' : Transport τ} {R : σ → τ → Prop}
    {o : ClientOptions} {deadline : Option Instant} {α : Type} (h : Pads T T' R) (p : Program α) :
    ∀ {s : Session σ} {s' : Session τ}, Session.Like R s s' → p.ClearOfDeadlines T o deadline s →
      Session.Like R (p.run T o deadline s).1 (p.run T' o deadline s').1 ∧
        (p.run T' o deadline s').2 = (p.run T o deadline s).2 := by
  induction p with
  | done a => exact fun hs _ => ⟨hs, rfl⟩
  | crash m => exact fun hs _ => ⟨hs, rfl⟩
  | sleep d next ih =>
      intro s s' hs hclear
      have hwake : Session.Like R { s with now := s.now + d } { s' with now := s'.now + d } :=
        ⟨by rw [hs.now], hs.conn, hs.wire⟩
      simp only [Program.ClearOfDeadlines, Program.rounds] at hclear
      simp only [Program.run]
      cases deadline with
      | none => exact ih hwake hclear
      | some t =>
          simp only [Option.any_some, decide_eq_true_eq] at hclear
          simp only [hs.now] at hwake ⊢
          split
          · exact ⟨⟨rfl, hs.conn, hs.wire⟩, rfl⟩
          · rw [if_neg ‹_›] at hclear
            exact ih hwake hclear
  | clock next ih =>
      intro s s' hs hclear
      simp only [Program.run, hs.now]
      exact ih s.now hs hclear
  | gather mode branches next ih =>
      intro s s' hs hclear
      simp only [Program.ClearOfDeadlines, Program.rounds] at hclear
      obtain ⟨hgathered, hendings⟩ := like_of_gather h hs branches (hclear _ List.mem_cons_self)
      have hrest := fun r hr => hclear r (List.mem_cons_of_mem _ hr)
      simp only [Program.run]
      generalize Conformance.gather T o mode deadline branches s = gathered
        at hgathered hendings hrest ⊢
      generalize Conformance.gather T' o mode deadline branches s' = gathered'
        at hgathered hendings ⊢
      obtain ⟨s₁, endings⟩ := gathered
      obtain ⟨s₁', endings'⟩ := gathered'
      dsimp only at hgathered hendings hrest ⊢
      subst hendings
      cases endings' with
      | none => exact ⟨hgathered, rfl⟩
      | some endings =>
          dsimp only at hrest ⊢
          cases hcrash : Program.crashIn endings with
          | some m => exact ⟨hgathered, rfl⟩
          | none =>
              rw [hcrash] at hrest
              exact ih endings hgathered hrest

end Conformance
