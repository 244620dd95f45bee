/-
Conformance — every schedule is a run.

Branches side by side use one connection over some transport.  Whatever the
transport does and however the branches are scheduled or dropped, what happens
to the connection is a run of the client: `move_leads` for one move, from it
`moves_leads` for any list of them, and `gather_follows` for the schedule that
runs; then the same for programs and trials.  The operations that start in the
run are those that start in the schedule, in the same order; the lines of the
run are the lines that the transport was given to write, and the outcomes of the
branches are outcomes in the run.  So what is proved of every run holds of every
program.
-/
import Conformance.Client.Program
import Conformance.Client.Trial
import Conformance.Proofs.Session.Rounds

namespace Conformance

open Client Board

/-- The start of an operation. -/
def startEntry (o : ClientOptions) (c : Connection) (op : Operation) : Entry :=
  ⟨{ conn := c }, .start op, (settle (c.begin o op)).1, (settle (c.begin o op)).2⟩

section Branches

variable {σ : Type} {T : Transport σ} {o : ClientOptions}
variable {P : List (String × Bool) → σ → Prop}
variable {b b' : Board σ} {i : Nat} {h : History}

/-- The start of the operation that starts at a move. -/
def Board.startAt (o : ClientOptions) (b : Board σ) (m : Move) : Option Entry :=
  (b.starter m).map fun s => startEntry o b.session.conn s.2

/-! ## What a branch can do -/

theorem client_eq {s : Client} {c : Connection} (hconn : s.conn = c) (hphase : s.phase = none) :
    s = { conn := c } := by
  obtain ⟨conn, phase⟩ := s
  cases hconn
  cases hphase
  rfl

/-- When the connection is free, or handed over, no operation is under way. -/
theorem now_of_tracks (ht : Tracks o P b h)
    (hfree : ∀ p, b.holder.bind b.placeOf = some p → ¬ p.waits) :
    h.now = { conn := b.session.conn } := by
  refine client_eq ht.conn ?_
  have hstands := ht.stands
  cases hp : b.holder.bind b.placeOf with
  | none =>
      rw [hp] at hstands
      exact hstands
  | some p =>
      have hnot := hfree p hp
      rw [hp] at hstands
      cases p with
      | writing | reading | stopping => exact absurd trivial hnot
      | pausing | resting | queued | ended => exact hstands

theorem now_of_free (ht : Tracks o P b h) (hfree : b.holder = none) :
    h.now = { conn := b.session.conn } := by
  refine now_of_tracks ht fun p hp => ?_
  rw [hfree] at hp
  cases hp

/-- A queued branch that holds the connection has been handed it free. -/
theorem now_of_handed {op : Operation} (ht : Tracks o P b h)
    (hholder : b.holder = some i) (hplace : b.placeOf i = some (.queued op)) :
    h.now = { conn := b.session.conn } := by
  refine now_of_tracks ht fun p hp => ?_
  rw [hholder, Option.bind_some, hplace] at hp
  cases hp
  exact id

/-- An event takes the holder on, and what it leads to is driven. -/
theorem leads_of_driven (hk : Keeps T P) {e : Event} {c : Connection} {p : Progress}
    (hheld : Held b i) (hrun : Run o h) (he : e.isStart = false)
    (hstep : h.now.step o e = some (settle (c, p)))
    (hwire : P (History.writes (⟨h.now, e, (settle (c, p)).1, (settle (c, p)).2⟩ :: h))
      b.session.wire)
    (hgiven : ∀ j r, b.placeOf j = some (.ended (.returned r)) → Given h r)
    (hdriven : Driven T o i b c p b') : Leads o P b' h :=
  leads_of_step he (driven_leads hk hdriven (drives_of_step hheld hrun hstep hwire hgiven))

/-- The holder starts an operation, and what it leads to is driven. -/
theorem leads_of_entry (hk : Keeps T P) {op : Operation} (hheld : Held b i) (hrun : Run o h)
    (hnow : h.now = { conn := b.session.conn }) (hwire : P h.writes b.session.wire)
    (hgiven : ∀ j r, b.placeOf j = some (.ended (.returned r)) → Given h r)
    (hdriven : Driven T o i b (b.session.conn.begin o op).1 (b.session.conn.begin o op).2 b') :
    Leads o P b' (startEntry o b.session.conn op :: h) := by
  have hstep : h.now.step o (.start op) = some (settle (b.session.conn.begin o op)) := by
    rw [hnow]
    rfl
  have hquiet : Entry.wrote (startEntry o b.session.conn op) = none := rfl
  have hentry : startEntry o b.session.conn op
      = ⟨h.now, .start op, (settle (b.session.conn.begin o op)).1,
          (settle (b.session.conn.begin o op)).2⟩ := by
    rw [hnow]
    rfl
  rw [hentry] at hquiet ⊢
  exact driven_leads hk hdriven
    (drives_of_step hheld hrun hstep (kept_of_quiet hquiet hwire) hgiven)

/-- A branch that does not hold is put elsewhere. -/
theorem tracks_setPlace {p : Place σ} (ht : Tracks o P b h) (hi : b.holder ≠ some i)
    (hthere : (b.placeOf i).isSome) (hgives : ∀ r, p = .ended (.returned r) → Given h r) :
    Tracks o P (b.setPlace i p) h := by
  refine ⟨ht.run, ht.conn, ?_, ht.wire, ?_⟩
  · have hplace : (b.setPlace i p).holder.bind (b.setPlace i p).placeOf
        = b.holder.bind b.placeOf := by
      show b.holder.bind _ = _
      cases hholder : b.holder with
      | none => rfl
      | some j =>
          refine placeOf_setPlace_ne p ?_
          rintro rfl
          exact hi hholder
    rw [hplace]
    exact ht.stands
  · intro j r hj
    by_cases hji : j = i
    · subst hji
      rw [placeOf_setPlace_self p hthere] at hj
      exact hgives r (Option.some.inj hj)
    · exact ht.given j r ((placeOf_setPlace_ne p hji).symm.trans hj)

/-- A branch that neither waits nor is queued is put elsewhere. -/
theorem tracks_of_moved {old p : Place σ} (hs : Sane b) (ht : Tracks o P b h)
    (hold : b.placeOf i = some old) (hfree : ¬ old.waits ∧ ¬ old.isQueued) (hp : ¬ p.waits)
    (hgives : ∀ r, p = .ended (.returned r) → Given h r) :
    Sane (b.setPlace i p) ∧ Tracks o P (b.setPlace i p) h :=
  ⟨sane_of_moved hs hold hfree hp,
    tracks_setPlace ht (not_holder_of_free hs hold hfree) (by rw [hold]; rfl) hgives⟩

/-- A branch that neither waits nor is queued lines up behind the holder. -/
theorem tracks_of_lines_up (op : Operation) {old : Place σ} (hs : Sane b) (ht : Tracks o P b h)
    (hold : b.placeOf i = some old) (hfree : ¬ old.waits ∧ ¬ old.isQueued)
    (hheld : b.holder ≠ none) :
    Sane ({ b with line := b.line ++ [i] }.setPlace i (.queued op)) ∧
      Tracks o P ({ b with line := b.line ++ [i] }.setPlace i (.queued op)) h := by
  obtain ⟨_, hmoved⟩ := tracks_of_moved (p := .queued op) hs ht hold hfree id nofun
  exact ⟨sane_of_lines_up op hs hold hfree hheld, hmoved.run, hmoved.conn, hmoved.stands,
    hmoved.wire, hmoved.given⟩

/-- Only holder, line and places, connection and wire count. -/
theorem tracks_congr (b' : Board σ) (hb : Sane b ∧ Tracks o P b h)
    (hholder : b'.holder = b.holder) (hline : b'.line = b.line)
    (hplaces : ∀ j, b'.placeOf j = b.placeOf j) (hconn : b'.session.conn = b.session.conn)
    (hwire : b'.session.wire = b.session.wire) : Sane b' ∧ Tracks o P b' h := by
  have heq : b'.placeOf = b.placeOf := funext hplaces
  obtain ⟨hs, ht⟩ := hb
  refine ⟨sane_congr hholder hline hplaces hs, ht.run, ht.conn.trans hconn.symm, ?_, ?_, ?_⟩
  · rw [hholder, heq]
    exact ht.stands
  · rw [hwire]
    exact ht.wire
  · rw [heq]
    exact ht.given

theorem tracks_begun (hs : Sane b) (ht : Tracks o P b h) (i : Nat) : Tracks o P (b.begun i) h :=
  (tracks_congr (b.begun i) ⟨hs, ht⟩ rfl rfl (placeOf_begun b i) rfl rfl).2

/-- Where the client of a board stands whose holder waits. -/
theorem stands_of_holder {p : Place σ} (hs : Sane b) (ht : Tracks o P b h)
    (hi : b.placeOf i = some p) (hp : p.waits) :
    b.holder = some i ∧ Stands o P h.writes h.now (some p) := by
  have hholder : b.holder = some i := hs.waits i p hi hp
  have hstands := ht.stands
  rw [hholder, Option.bind_some, hi] at hstands
  exact ⟨hholder, hstands⟩

theorem leads_of_starts {op : Operation} (hstarts : b.starts i = some op)
    (hrest : Leads o P b' (startEntry o b.session.conn op :: h)) :
    Leads o P b' ((b.startAt o (.poll i)).toList ++ h) := by
  rw [startAt, starter, hstarts]
  exact hrest

theorem leads_of_starts_none (hstarts : b.starts i = none) (hrest : Leads o P b' h) :
    Leads o P b' ((b.startAt o (.poll i)).toList ++ h) := by
  rw [startAt, starter, hstarts]
  exact hrest

/-- What a branch does when it is polled is a stretch of the run.  It begins with the start of
an operation if the connection is free for the branch or was handed over to it. -/
theorem goes_leads (hk : Keeps T P) (hs : Sane b) (ht : Tracks o P b h)
    (hgoes : Goes T o i b b') : Leads o P b' ((b.startAt o (.poll i)).toList ++ h) := by
  have hbegun : Sane (b.begun i) := sane_begun hs i
  have htracks : Tracks o P (b.begun i) h := tracks_begun hs ht i
  cases hgoes with
  | still hnot =>
      exact leads_of_starts_none (starts_of_not_ready hnot) (leads_of_tracks ⟨hs, ht⟩)
  | rests hp _ hasks _ hfree _ hended =>
      refine leads_of_starts_none (starts_of_pausing hp hasks)
        (leads_of_tracks (tracks_of_moved hbegun htracks ((placeOf_begun b i i).trans hp) ⟨id, id⟩
          hfree.1 fun r hr => ?_))
      cases hended _ hr
      exact .inr (.inr rfl)
  | rested hp =>
      refine leads_of_starts_none (starts_of_place hp (fun _ hpause => by cases hpause) id)
        (leads_of_tracks (tracks_of_moved hs ht hp ⟨id, id⟩ id fun r hr => ?_))
      cases hr
      exact .inr (.inr rfl)
  | refused hasks hheld =>
      obtain ⟨u, hp⟩ := pausing_of_asks hasks
      refine leads_of_starts_none (starts_of_busy hasks hheld)
        (leads_of_tracks (tracks_of_moved hbegun htracks ((placeOf_begun b i i).trans hp) ⟨id, id⟩
          id fun r hr => ?_))
      cases hr
      exact .inr (.inl rfl)
  | @linesUp op hasks hheld =>
      obtain ⟨u, hp⟩ := pausing_of_asks hasks
      exact leads_of_starts_none (starts_of_busy hasks hheld)
        (leads_of_tracks (tracks_of_lines_up op hbegun htracks ((placeOf_begun b i i).trans hp)
          ⟨id, id⟩ hheld))
  | enters hasks hfree hdriven =>
      have hnow : h.now = { conn := b.session.conn } := now_of_free ht hfree
      exact leads_of_starts ((starts_of_free hfree).trans hasks)
        (leads_of_entry (b := { b.begun i with holder := some i }) hk
          (held_of_begun hs hasks hfree) ht.run hnow ht.wire htracks.given hdriven)
  | handed hp hi hdriven =>
      exact leads_of_starts (starts_of_handed hi hp)
        (leads_of_entry hk (held_of_sane hs hi) ht.run (now_of_handed ht hi hp) ht.wire ht.given
          hdriven)
  | @wrote why st _ hp _ hdriven =>
      obtain ⟨hholder, line, hphase, hafter, _⟩ := stands_of_holder hs ht hp trivial
      have hstep : h.now.step o (.written st.result)
          = some (settle (b.session.conn.written why st.result)) := by
        simp only [step, hphase, ht.conn]
      refine leads_of_starts_none (starts_of_waits hp trivial) (leads_of_driven hk
        (held_setWire (held_of_sane hs hholder) st.after) ht.run rfl hstep ?_ ht.given hdriven)
      rw [writes_cons, Entry.wrote]
      simp only [hphase, Option.toList_some]
      exact hafter
  | read hp _ hdriven =>
      obtain ⟨hholder, id, hphase, hverdict⟩ := stands_of_holder hs ht hp trivial
      obtain ⟨e, hstart, hquiet, he⟩ := step_of_verdict hphase hverdict
      rw [ht.conn] at he hquiet
      exact leads_of_starts_none (starts_of_waits hp trivial) (leads_of_driven hk
        (held_setWire (held_of_sane hs hholder) _) ht.run hstart he
        (kept_of_quiet hquiet (hk.take _ _ _ _ ht.wire)) ht.given hdriven)
  | @stopped st _ hp _ hdriven =>
      obtain ⟨hholder, ⟨grace, hphase⟩, hafter, _⟩ := stands_of_holder hs ht hp trivial
      have hstep : h.now.step o (.stopped st.result)
          = some (settle (b.session.conn.stopped st.result)) := by
        simp only [step, hphase, ht.conn]
      exact leads_of_starts_none (starts_of_waits hp trivial) (leads_of_driven hk
        (held_setWire (held_of_sane hs hholder) _) ht.run rfl hstep
        (kept_of_quiet (by simp only [Entry.wrote, hphase]) hafter) ht.given hdriven)

/-- The holder is dropped where it waits. -/
theorem leads_of_dropped {p : Phase} {w : σ} {e : Ending} (hheld : Held b i) (hrun : Run o h)
    (hnow : h.now = { conn := b.session.conn, phase := some p })
    (hwire : P (History.writes (⟨h.now, .dropped, { conn := b.session.conn }, none⟩ :: h)) w)
    (hgiven : ∀ j r, b.placeOf j = some (.ended (.returned r)) → Given h r)
    (he : ∀ r, e ≠ .returned r) :
    Leads o P ((b.setWire w).setPlace i (.ended e)).release h := by
  have hstep : h.now.step o .dropped = some ({ conn := b.session.conn }, none) := by
    rw [hnow]
    cases p <;> rfl
  exact leads_of_last (held_setWire hheld w) hrun rfl hstep hwire hgiven
    fun r hr => absurd hr (he r)

theorem drop_leads (hk : Keeps T P) {t : Task σ} (hs : Sane b) (ht : Tracks o P b h)
    (hi : b.tasks[i]? = some t) : Leads o P (drop T i t b) h := by
  have hcancelled : ∀ r, Ending.cancelled ≠ .returned r := nofun
  have hleft : ∀ r, (.ended .cancelled : Place σ) = .ended (.returned r) → Given h r := nofun
  have hplace : b.placeOf i = some t.place := placeOf_of_task hi
  simp only [drop]
  cases hp : t.place with
  | pausing | resting =>
      rw [hp] at hplace
      exact leads_of_tracks (tracks_of_moved hs ht hplace ⟨id, id⟩ id hleft)
  | queued op =>
      rw [hp] at hplace
      dsimp only
      split
      · rename_i hholder
        have hnow : h.now = { conn := b.session.conn } := now_of_handed ht hholder hplace
        exact leads_of_tracks (tracks_of_ended (held_of_sane hs hholder) ht.run hnow ht.wire
          ht.given fun r hr => absurd hr (hcancelled r))
      · rename_i hholder
        have hthere : (b.placeOf i).isSome := by rw [hplace]; rfl
        have hmoved : Tracks o P (b.setPlace i (.ended .cancelled)) h :=
          tracks_setPlace ht hholder hthere hleft
        exact leads_of_tracks ⟨sane_of_leaves .cancelled hs hholder hthere, hmoved.run,
          hmoved.conn, hmoved.stands, hmoved.wire, hmoved.given⟩
  | writing why st =>
      rw [hp] at hplace
      obtain ⟨hholder, line, hphase, _, hdropped⟩ := stands_of_holder hs ht hplace trivial
      have hnow : h.now = { conn := b.session.conn, phase := some (.write why line) } := by
        rw [← ht.conn, ← hphase]
      refine leads_of_dropped (held_of_sane hs hholder) ht.run hnow ?_ ht.given hcancelled
      rw [writes_cons, Entry.wrote]
      simp only [hphase, Option.toList_some]
      exact hdropped _
  | reading purpose w =>
      rw [hp] at hplace
      obtain ⟨hholder, id, hphase, _⟩ := stands_of_holder hs ht hplace trivial
      have hnow : h.now = { conn := b.session.conn, phase := some (.await purpose id) } := by
        rw [← ht.conn, ← hphase]
      exact leads_of_dropped (held_of_sane hs hholder) ht.run hnow
        (kept_of_quiet (by simp only [Entry.wrote, hphase]) (hk.take _ _ _ _ ht.wire)) ht.given
        hcancelled
  | stopping st =>
      rw [hp] at hplace
      obtain ⟨hholder, ⟨grace, hphase⟩, _, hdropped⟩ := stands_of_holder hs ht hplace trivial
      have hnow : h.now = { conn := b.session.conn, phase := some (.stop grace) } := by
        rw [← ht.conn, ← hphase]
      exact leads_of_dropped (held_of_sane hs hholder) ht.run hnow
        (kept_of_quiet (by simp only [Entry.wrote, hphase]) hdropped) ht.given hcancelled
  | ended e => exact leads_of_tracks ⟨hs, ht⟩

theorem poll_leads (hk : Keeps T P) (hs : Sane b) (ht : Tracks o P b h) (i : Nat) :
    Leads o P (poll T o b i) ((b.startAt o (.poll i)).toList ++ h) := by
  simp only [poll]
  cases hi : b.tasks[i]? with
  | none =>
      have hgone : b.placeOf i = none := by rw [placeOf, hi, Option.map_none]
      refine goes_leads hk hs ht (.still ?_)
      rintro ⟨p, hp, _⟩
      cases hgone.symm.trans hp
  | some t =>
      refine leads_trans (goes_leads hk hs ht (goOn_goes T o hi)) fun h' hs' ht' => ?_
      dsimp only
      cases hi' : (goOn T o i t b).tasks[i]? with
      | none => exact leads_of_tracks ⟨hs', ht'⟩
      | some t' =>
          dsimp only
          split
          · exact drop_leads hk hs' ht' hi'
          · exact leads_of_tracks ⟨hs', ht'⟩

/-! ## Moves -/

theorem dropAt_leads (hk : Keeps T P) (hs : Sane b) (ht : Tracks o P b h) (i : Nat) :
    Leads o P (dropAt T b i) h := by
  rw [dropAt]
  split
  · exact drop_leads hk hs ht ‹_›
  · exact leads_of_tracks ⟨hs, ht⟩

theorem setNow_tracks (hs : Sane b) (ht : Tracks o P b h) (now : Instant) :
    Sane (b.setNow now) ∧ Tracks o P (b.setNow now) h :=
  tracks_congr (b.setNow now) ⟨hs, ht⟩ rfl rfl (fun _ => rfl) rfl rfl

/-- A move is a stretch of the run: the start of an operation, if one starts at
it, and what one operation does from there on. -/
theorem move_leads (hk : Keeps T P) (hs : Sane b) (ht : Tracks o P b h) (m : Move) :
    Leads o P (b.move T o m) ((b.startAt o m).toList ++ h) := by
  cases m with
  | poll i => exact poll_leads hk hs ht i
  | drop i => exact dropAt_leads hk hs ht i
  | clock now => exact leads_of_tracks (setNow_tracks hs ht now)

theorem isStart_of_startAt {m : Move} {x : Entry} (hx : b.startAt o m = some x) :
    x.event.isStart = true := by
  obtain ⟨s, _, rfl⟩ := Option.map_eq_some_iff.mp hx
  rfl

/-- A list of moves is a stretch of the run, in which the same operations start
in the same order. -/
theorem moves_leads (hk : Keeps T P) (ms : List Move) :
    ∀ (b : Board σ) (h : History), Sane b → Tracks o P b h →
      ∃ later, later.filter (·.event.isStart) = (b.along T o (startAt o) ms).reverse ∧
        Sane (b.moves T o ms) ∧ Tracks o P (b.moves T o ms) (later ++ h) := by
  induction ms with
  | nil => exact fun b h hs ht => ⟨[], rfl, hs, ht⟩
  | cons m ms ih =>
      intro b h hs ht
      obtain ⟨mid, hquiet, hs', ht'⟩ := move_leads hk hs ht m
      obtain ⟨later, hstarts, hs'', ht''⟩ := ih _ _ hs' ht'
      refine ⟨later ++ (mid ++ (b.startAt o m).toList), ?_, hs'', ?_⟩
      · have hmid : mid.filter (·.event.isStart) = [] :=
          List.filter_eq_nil_iff.mpr fun x hx => by simp [hquiet x hx]
        rw [List.filter_append, List.filter_append, hstarts, hmid, List.nil_append, along_cons,
          List.reverse_append]
        congr 1
        cases hstart : b.startAt o m with
        | none => rfl
        | some x => simp [isStart_of_startAt hstart]
      · rw [List.append_assoc, List.append_assoc]
        exact ht''

/-! ## The end of all branches -/

/-- The branch, if it is there, has ended. -/
def HasEnded (b : Board σ) (i : Nat) : Prop := ∀ p, b.placeOf i = some p → ∃ e, p = .ended e

theorem hasEnded_setPlace (b : Board σ) (i : Nat) (e : Ending) :
    HasEnded (b.setPlace i (.ended e)) i := by
  intro p hp
  exact ⟨e, eq_of_setPlace hp⟩

/-- A branch that is dropped has ended, and the others stay where they are. -/
theorem places_of_drops (h : Drops i b b') :
    HasEnded b' i ∧ ∀ j, j ≠ i → b'.placeOf j = b.placeOf j := by
  cases h with
  | gone hended => exact ⟨hended, fun _ _ => rfl⟩
  | idle | leaves | letsGo =>
      exact ⟨hasEnded_setPlace _ i .cancelled, fun j hj => placeOf_setPlace_ne _ hj⟩

theorem dropAll_eq (T : Transport σ) (b : Board σ) :
    dropAll T b = (List.range b.tasks.length).foldl (dropAt T) b := rfl

theorem hasEnded_dropAt (T : Transport σ) (b : Board σ) (i j : Nat)
    (hj : HasEnded b j ∨ j = i) : HasEnded (dropAt T b i) j := by
  rw [dropAt]
  cases hi : b.tasks[i]? with
  | none =>
      rcases hj with hj | rfl
      · exact hj
      · intro p hp
        rw [placeOf, hi] at hp
        cases hp
  | some t =>
      obtain ⟨hself, hothers⟩ := places_of_drops (drop_drops T hi)
      by_cases hji : j = i
      · rw [hji]
        exact hself
      · intro p hp
        exact (hj.resolve_right hji) p ((hothers j hji).symm.trans hp)

theorem hasEnded_dropAll (T : Transport σ) (b : Board σ) (i : Nat) :
    HasEnded (dropAll T b) i := by
  have hfold : ∀ (is : List Nat) (b : Board σ), HasEnded b i ∨ i ∈ is →
      HasEnded (is.foldl (dropAt T) b) i := by
    intro is
    induction is with
    | nil => exact fun b hi => hi.resolve_right List.not_mem_nil
    | cons j rest ih =>
        intro b hi
        refine ih _ ?_
        rcases hi with hi | hi
        · exact .inl (hasEnded_dropAt T b j i (.inl hi))
        · rcases List.mem_cons.mp hi with hij | hi
          · exact .inl (hasEnded_dropAt T b j i (.inr hij))
          · exact .inr hi
  rw [dropAll_eq]
  refine hfold _ _ ?_
  by_cases hi : i < b.tasks.length
  · exact .inr (List.mem_range.mpr hi)
  · refine .inl fun p hp => ?_
    rw [placeOf, List.getElem?_eq_none (Nat.not_lt.mp hi)] at hp
    cases hp

theorem hasEnded_run (T : Transport σ) (o : ClientOptions) (mode : Gather)
    (deadline : Option Instant) (fuel : Nat) :
    ∀ (b : Board σ) (i : Nat), HasEnded (Board.run T o mode deadline fuel b).1 i := by
  induction fuel with
  | zero => exact fun b i => hasEnded_dropAll T b i
  | succ fuel ih =>
      intro b i
      cases hpass : Board.pass T o mode (List.range b.tasks.length) b with
      | mk b' stopped =>
          rw [run_of_pass fuel hpass]
          cases b'.sequel deadline stopped with
          | done => exact hasEnded_dropAll T b' i
          | cut clock => exact hasEnded_dropAll T (b'.clockTo clock) i
          | again clock => exact ih (b'.clockTo clock) i

/-- Where all branches have ended, nobody holds. -/
theorem free_of_ended (hs : Sane b) (hended : ∀ i, HasEnded b i) : b.holder = none := by
  cases hholder : b.holder with
  | none => rfl
  | some i =>
      obtain ⟨p, hp, hstate⟩ := hs.holds i hholder
      obtain ⟨e, rfl⟩ := hended i p hp
      exact (hstate.elim id id).elim

end Branches

/-! ## Sessions -/

/-- The run `h` is what has happened to the connection of a session that nobody uses. -/
structure Follows {σ : Type} (o : ClientOptions) (P : List (String × Bool) → σ → Prop)
    (s : Session σ) (h : History) : Prop where
  run : Run o h
  now : h.now = { conn := s.conn }
  wire : P h.writes s.wire

section Sessions

variable {σ : Type} {T : Transport σ} {o : ClientOptions}
variable {P : List (String × Bool) → σ → Prop} {h : History}

/-- A client that has not been used. -/
theorem follows_start {w : σ} (now : Instant) (hw : P [] w) :
    Follows o P { now, wire := w } [] :=
  ⟨.nil, rfl, hw⟩

theorem placeOf_start {s : Session σ} {branches : List Branch} {i : Nat} {p : Place σ}
    (hp : (start s branches).placeOf i = some p) : ∃ wakes, p = .pausing wakes := by
  obtain ⟨t, ht, rfl⟩ := Option.map_eq_some_iff.mp hp
  obtain ⟨br, _, rfl⟩ := List.mem_map.mp (List.mem_of_getElem? ht)
  exact ⟨_, rfl⟩

theorem sane_start (s : Session σ) (branches : List Branch) : Sane (start s branches) := by
  refine ⟨?_, nofun, by simp [start], List.nodup_nil, nofun, fun _ => rfl⟩
  intro i p hp hw
  obtain ⟨wakes, rfl⟩ := placeOf_start hp
  exact hw.elim

/-- Branches before anything has happened. -/
theorem tracks_start {s : Session σ} (hf : Follows o P s h) (branches : List Branch) :
    Tracks o P (start s branches) h := by
  refine ⟨hf.run, congrArg Client.conn hf.now, congrArg Client.phase hf.now, hf.wire, ?_⟩
  intro i r hp
  obtain ⟨wakes, hw⟩ := placeOf_start hp
  exact nomatch hw

theorem place_of_ending {t : Task σ} {r : Outcome} (ht : ending t = .returned r) :
    t.place = .ended (.returned r) := by
  rw [ending] at ht
  split at ht
  · rw [‹t.place = _›, ht]
  · exact nomatch ht

/-- Branches side by side are a run of the client, and their outcomes are in it. -/
theorem gather_follows (hk : Keeps T P) {s : Session σ} (hf : Follows o P s h)
    (mode : Gather) (deadline : Option Instant) (branches : List Branch) :
    ∃ later, Follows o P (gather T o mode deadline branches s).1 (later ++ h) ∧
      ∀ endings, (gather T o mode deadline branches s).2 = some endings →
        ∀ r, .returned r ∈ endings → Given (later ++ h) r := by
  rw [gather_eq]
  dsimp only
  obtain ⟨later, _, hs', ht'⟩ := moves_leads hk
    (runMoves T o mode deadline (passBound branches.length) (start s branches)) _ _
    (sane_start s branches) (tracks_start hf branches)
  have hended := hasEnded_run T o mode deadline (passBound branches.length) (start s branches)
  rw [← run_eq_moves] at hs' ht'
  generalize Board.run T o mode deadline _ (start s branches) = result at hs' ht' hended ⊢
  have hfree := free_of_ended hs' hended
  refine ⟨later, ⟨ht'.run, ?_, ht'.wire⟩, ?_⟩
  · exact now_of_free ht' hfree
  · intro endings hsome r hr
    have htasks : endings = result.1.tasks.map ending := by
      cases hdropped : result.2 with
      | true => simp [hdropped] at hsome
      | false => simpa [hdropped, eq_comm] using hsome
    obtain ⟨t, hmem, hending⟩ := List.mem_map.mp (htasks ▸ hr)
    obtain ⟨i, hi⟩ := List.mem_iff_getElem?.mp hmem
    exact ht'.given i r (by rw [placeOf_of_task hi, place_of_ending hending])

/-- Whatever a program does with a client is a run of it. -/
theorem program_follows {α : Type} (hk : Keeps T P) (deadline : Option Instant)
    (p : Program α) : ∀ {s : Session σ} {h : History}, Follows o P s h →
      ∃ later, Follows o P (p.run T o deadline s).1 (later ++ h) := by
  induction p with
  | done a => exact fun hf => ⟨[], hf⟩
  | crash m => exact fun hf => ⟨[], hf⟩
  | sleep d next ih =>
      intro s h hf
      have hlater : ∀ now, Follows o P { s with now } h := fun _ =>
        ⟨hf.run, hf.now, hf.wire⟩
      simp only [Program.run]
      cases deadline with
      | none => exact ih (hlater _)
      | some t =>
          dsimp only
          split
          · exact ⟨[], hlater _⟩
          · exact ih (hlater _)
  | clock next ih => exact fun {s} _ hf => ih s.now hf
  | gather mode branches next ih =>
      intro s h hf
      obtain ⟨later, hf', _⟩ := gather_follows hk hf mode deadline branches
      simp only [Program.run]
      generalize Conformance.gather T o mode deadline branches s = result at hf' ⊢
      obtain ⟨s', endings⟩ := result
      cases endings with
      | none => exact ⟨later, hf'⟩
      | some endings =>
          dsimp only
          cases Program.crashIn endings with
          | some m => exact ⟨later, hf'⟩
          | none =>
              obtain ⟨later', hf''⟩ := ih endings hf'
              rw [← List.append_assoc] at hf''
              exact ⟨later' ++ later, hf''⟩

/-- A question asked when no one else uses the client. -/
theorem inquire_follows (hk : Keeps T P) {s : Session σ} (hf : Follows o P s h)
    (q : Query) : ∃ later, Follows o P (inquire T o q s).1 (later ++ h) := by
  obtain ⟨later, hf', _⟩ := gather_follows hk hf .all none [{ work := .use (.ask q) }]
  rw [inquire]
  split <;> rename_i heq <;> rw [heq] at hf' <;> exact ⟨later, hf'⟩

theorem trialStep_follows (hk : Keeps T P) {s : Session σ}
    (hf : Follows o P s h) (step : TrialStep) :
    ∃ later, Follows o P (trialStep T o step s).session (later ++ h) := by
  obtain ⟨acts, hf₁, _⟩ :=
    gather_follows hk hf .all none (step.acts.map TimedAct.branch)
  rw [trialStep]
  dsimp only
  generalize gather T o .all none _ s = gathered at hf₁ ⊢
  obtain ⟨state, hf₂⟩ := inquire_follows hk hf₁ .state
  generalize inquire T o .state gathered.1 = asked at hf₂ ⊢
  obtain ⟨connected, hf₃⟩ := inquire_follows hk hf₂ .connected
  generalize inquire T o .connected asked.1 = asked at hf₃ ⊢
  obtain ⟨lastId, hf₄⟩ := inquire_follows hk hf₃ .lastId
  generalize inquire T o .lastId asked.1 = asked at hf₄ ⊢
  exact ⟨lastId ++ (connected ++ (state ++ acts)), by simpa only [List.append_assoc] using hf₄⟩

/-- After each step of a trial there is a run behind the client. -/
theorem trial_follows (hk : Keeps T P) (steps : List TrialStep) :
    ∀ {s : Session σ} {h : History}, Follows o P s h →
      ∀ seen ∈ trial T o steps s, ∃ later, Follows o P seen.session (later ++ h) := by
  induction steps with
  | nil => exact fun _ seen hseen => absurd hseen List.not_mem_nil
  | cons step rest ih =>
      intro s h hf seen hseen
      obtain ⟨later, hf'⟩ := trialStep_follows hk hf step
      rw [trial] at hseen
      -- the step is kept closed: opening it would run the schedule
      generalize trialStep T o step s = first at hf' hseen
      rcases List.mem_cons.mp hseen with rfl | hrest
      · exact ⟨later, hf'⟩
      · obtain ⟨later', hf''⟩ := ih hf' seen hrest
        exact ⟨later' ++ later, by rw [List.append_assoc]; exact hf''⟩

/-- A trial of a new client: every look finds a client that some run leads to, and
what the transport has kept is what it keeps of that run. -/
theorem trial_run (hk : Keeps T P) (steps : List TrialStep) {w : σ} (now : Instant)
    (hw : P [] w) :
    ∀ seen ∈ trial T o steps { now, wire := w }, ∃ h, Follows o P seen.session h := by
  intro seen hseen
  obtain ⟨later, hf⟩ := trial_follows hk steps (follows_start now hw) seen hseen
  exact ⟨later ++ [], hf⟩

end Sessions

end Conformance
