/-
Conformance — the holder of the connection is a run.

The branch that holds the connection is driven from phase to phase until it
ends or has to wait.  `Driven` is that without its fuel: the fuel is enough, since
an operation has no more phases than its rank, and no phase leads to one of the
same rank (`driven_drive`).

What the drive does to the connection is a run of the client (`driven_leads`),
whatever the transport; `Tracks` is a board and the run that has
led to it.  With the run come the lines whose write has ended, each with the
word whether it went out in full, and the endings of the branches, whose
outcomes are outcomes in it.  What a transport keeps of the lines that it was
given is a parameter (`Keeps`): the lines themselves, or the octets that they
have become.

A wait is foretold by the transport as a whole.  Of its items the run has the
one that decides; those before it are silent and leave the client as it is.  A
write is foretold likewise, with what is left if it is dropped.
-/
import Conformance.Proofs.Session.Board
import Conformance.Proofs.Session.History
import Conformance.Proofs.Wait.Deadline

namespace Conformance

open Client Connection Board

/-! ## What is compared -/

/-- The line whose write ends, and whether it was written in full. -/
def Entry.wrote (x : Entry) : Option (String × Bool) :=
  match x.before.phase, x.event with
  | some (.write _ line), .written r => some (line, r.isOk)
  | some (.write _ line), .dropped => some (line, false)
  | _, _ => none

/-- The lines whose write has ended, in order. -/
def History.writes (h : History) : List (String × Bool) := (h.filterMap Entry.wrote).reverse

/-- The operation starts at this event. -/
def Event.isStart : Event → Bool
  | .start _ => true
  | _ => false

/-- `P` says what a transport keeps of the lines whose write has ended. -/
structure Keeps {σ : Type} (T : Transport σ) (P : List (String × Bool) → σ → Prop) : Prop where
  written : ∀ now line ls w, P ls w →
    P (ls ++ [(line, (T.write now line w).result.isOk)]) (T.write now line w).after
  unwritten : ∀ now line t ls w, P ls w → P (ls ++ [(line, false)]) ((T.write now line w).dropped t)
  take : ∀ now n ls w, P ls w → P ls (T.take now n w)
  connected : ∀ now ls w, P ls w → P ls (T.connected now w).1
  stopped : ∀ now grace ls w, P ls w → P ls (T.stop now grace w).after
  unstopped : ∀ now grace ls w, P ls w → P ls (T.stop now grace w).dropped

/-- Nothing needs to be kept. -/
theorem keeps_nothing {σ : Type} (T : Transport σ) : Keeps T fun _ _ => True := by
  constructor <;> intros <;> trivial

/-- `log` tells the lines that a transport was given to write. -/
structure Records {σ : Type} (T : Transport σ) (log : σ → List String) : Prop where
  written : ∀ now line w, log (T.write now line w).after = log w ++ [line]
  unwritten : ∀ now line t w, log ((T.write now line w).dropped t) = log w ++ [line]
  take : ∀ now n w, log (T.take now n w) = log w
  connected : ∀ now w, log (T.connected now w).1 = log w
  stopped : ∀ now grace w, log (T.stop now grace w).after = log w
  unstopped : ∀ now grace w, log (T.stop now grace w).dropped = log w

/-- What is told is kept; `before` are the lines that were told already. -/
theorem keeps_of_records {σ : Type} {T : Transport σ} {log : σ → List String}
    (hlog : Records T log) (before : List String) :
    Keeps T fun ls w => log w = before ++ ls.map (·.1) where
  written now line ls w h := by rw [hlog.written, h]; simp
  unwritten now line t ls w h := by rw [hlog.unwritten, h]; simp
  take now n ls w h := by rw [hlog.take, h]
  connected now ls w h := by rw [hlog.connected, h]
  stopped now grace ls w h := by rw [hlog.stopped, h]
  unstopped now grace ls w h := by rw [hlog.unstopped, h]

/-- The transport that keeps the lines that it is given. -/
def Transport.recording {σ : Type} (T : Transport σ) : Transport (σ × List String) where
  write now line w :=
    { ends := (T.write now line w.1).ends
      after := ((T.write now line w.1).after, w.2 ++ [line])
      result := (T.write now line w.1).result
      dropped := fun t => ((T.write now line w.1).dropped t, w.2 ++ [line]) }
  arrivals now w := T.arrivals now w.1
  take now n w := (T.take now n w.1, w.2)
  connected now w := (((T.connected now w.1).1, w.2), (T.connected now w.1).2)
  stop now grace w :=
    { ends := (T.stop now grace w.1).ends
      after := ((T.stop now grace w.1).after, w.2)
      result := (T.stop now grace w.1).result
      dropped := ((T.stop now grace w.1).dropped, w.2) }
  stderr now w := T.stderr now w.1

/-- Every transport can be made to tell its lines. -/
theorem records_recording {σ : Type} (T : Transport σ) : Records T.recording (·.2) :=
  ⟨fun _ _ _ => rfl, fun _ _ _ _ => rfl, fun _ _ _ => rfl, fun _ _ => rfl, fun _ _ _ => rfl,
    fun _ _ _ => rfl⟩

variable {σ : Type}

/-- The client of a connection whose holder stands somewhere; `lines` are those
whose write has ended. -/
def Stands (o : ClientOptions) (P : List (String × Bool) → σ → Prop)
    (lines : List (String × Bool)) (s : Client) : Option (Place σ) → Prop
  | some (.writing why st) =>
      ∃ line, s.phase = some (.write why line) ∧
        P (lines ++ [(line, st.result.isOk)]) st.after ∧
        ∀ t, P (lines ++ [(line, false)]) (st.dropped t)
  | some (.reading purpose w) =>
      ∃ id, s.phase = some (.await purpose id) ∧
        (w.verdict = .refuse (.readTimeout o.requestTimeout) ∨
          ∃ item, judge id s.conn.abandoned o.requestTimeout item = some w.verdict)
  | some (.stopping st) =>
      (∃ grace, s.phase = some (.stop grace)) ∧ P lines st.after ∧ P lines st.dropped
  | _ => s.phase = none

/-- The outcome of a branch is one of the run, or that of a branch that made no use
of the connection. -/
def Given (h : History) (r : Outcome) : Prop :=
  (∃ x ∈ h, x.outcome = some r) ∨ r = .error .busy ∨ r = .ok .done

/-- The run `h` is what has happened to the connection of a board. -/
structure Tracks (o : ClientOptions) (P : List (String × Bool) → σ → Prop) (b : Board σ)
    (h : History) : Prop where
  run : Run o h
  conn : h.now.conn = b.session.conn
  stands : Stands o P h.writes h.now (b.holder.bind b.placeOf)
  wire : P h.writes b.session.wire
  given : ∀ i r, b.placeOf i = some (.ended (.returned r)) → Given h r

/-- The run `h` can be carried on to one that the board tracks, and no other
operation starts on the way. -/
def Leads (o : ClientOptions) (P : List (String × Bool) → σ → Prop) (b : Board σ)
    (h : History) : Prop :=
  ∃ later, (∀ x ∈ later, x.event.isStart = false) ∧ Sane b ∧ Tracks o P b (later ++ h)

theorem leads_of_tracks {o : ClientOptions} {P : List (String × Bool) → σ → Prop} {b : Board σ}
    {h : History} (hb : Sane b ∧ Tracks o P b h) : Leads o P b h := ⟨[], by simp, hb⟩

/-- A board that goes on from where another has got to. -/
theorem leads_trans {o : ClientOptions} {P : List (String × Bool) → σ → Prop} {b b' : Board σ}
    {h : History} (hb : Leads o P b h)
    (hgo : ∀ h', Sane b → Tracks o P b h' → Leads o P b' h') : Leads o P b' h := by
  obtain ⟨later, hquiet, hsane, htracks⟩ := hb
  obtain ⟨later', hquiet', hsane', htracks'⟩ := hgo _ hsane htracks
  rw [← List.append_assoc] at htracks'
  refine ⟨later' ++ later, ?_, hsane', htracks'⟩
  intro x hx
  rcases List.mem_append.mp hx with hx | hx
  · exact hquiet' x hx
  · exact hquiet x hx

theorem stands_of_free {o : ClientOptions} {P : List (String × Bool) → σ → Prop}
    {lines : List (String × Bool)} {s : Client} {x : Option (Place σ)} (hs : s.phase = none)
    (hx : ∀ p, x = some p → ¬ p.waits) : Stands o P lines s x := by
  cases x with
  | none => exact hs
  | some p =>
      cases p with
      | writing | reading | stopping => exact absurd trivial (hx _ rfl)
      | pausing | resting | queued | ended => exact hs

theorem given_of_append {h : History} {r : Outcome} (later : History) (hg : Given h r) :
    Given (later ++ h) r := by
  rcases hg with ⟨x, hx, hr⟩ | hidle
  · exact .inl ⟨x, List.mem_append_right _ hx, hr⟩
  · exact .inr hidle

theorem writes_cons (x : Entry) (h : History) :
    History.writes (x :: h) = h.writes ++ x.wrote.toList := by
  rw [History.writes, History.writes, List.filterMap_cons]
  cases x.wrote <;> simp

/-- An event that ends no write changes nothing of what is kept. -/
theorem kept_of_quiet {P : List (String × Bool) → σ → Prop} {x : Entry} {h : History} {w : σ}
    (hx : x.wrote = none) (hw : P h.writes w) : P (History.writes (x :: h)) w := by
  rw [writes_cons, hx, Option.toList_none, List.append_nil]
  exact hw

/-! ## The holder is driven -/

/-- A bound for the phases that an operation still has, its end included. -/
def Progress.rank : Progress → Nat
  | .ended _ => 1
  | .next (.ask _) => 1
  | .next (.stop _) => 2
  | .next (.write .notification _) => 2
  | .next (.write (.announcement _) _) => 2
  | .next (.await _ _) => 3
  | .next (.write (.request _ _) _) => 4

theorem rank_fail (c : Connection) (purpose : Purpose) (e : ClientError) :
    (c.fail purpose e).2.rank = 1 := by
  rw [fail_eq]
  rfl

theorem rank_le (p : Progress) : p.rank ≤ 4 := by
  cases p with
  | ended r => exact (by decide : 1 ≤ 4)
  | next p =>
      cases p with
      | write why line =>
          cases why with
          | request => exact (by decide : 4 ≤ 4)
          | announcement | notification => exact (by decide : 2 ≤ 4)
      | await => exact (by decide : 3 ≤ 4)
      | stop => exact (by decide : 2 ≤ 4)
      | ask => exact (by decide : 1 ≤ 4)

theorem rank_written (c : Connection) (why : Writing) (line : String)
    (r : Except ClientError Unit) :
    (c.written why r).2.rank < (Progress.next (.write why line)).rank := by
  cases why with
  | request purpose id =>
      cases r with
      | ok u => exact (by decide : 3 < 4)
      | error e =>
          rw [written, rank_fail]
          exact (by decide : 1 < 4)
  | announcement info =>
      cases r with
      | ok u => exact (by decide : 1 < 2)
      | error e =>
          rw [written, rank_fail]
          exact (by decide : 1 < 2)
  | notification => cases r <;> exact (by decide : 1 < 2)

theorem rank_settled (c : Connection) (purpose : Purpose) (v : Verdict) :
    (c.settled purpose v).2.rank ≤ 2 := by
  cases v with
  | refuse e =>
      rw [settled, rank_fail]
      decide
  | misshapen e =>
      rw [settled, rank_fail]
      decide
  | answer r =>
      cases purpose with
      | answer | listing => exact (by decide : 1 ≤ 2)
      | opening =>
          simp only [settled]
          rcases opened_cases { c with inFlight := none } r with ⟨e, _, hop⟩ | ⟨info, _, hop⟩
          · rw [hop, rank_fail]
            decide
          · rw [hop]
            exact Nat.le_refl 2

theorem rank_pos (p : Progress) : 0 < p.rank := by
  cases p with
  | ended r => exact Nat.one_pos
  | next p =>
      cases p with
      | write why line => cases why <;> exact Nat.succ_pos _
      | await | stop | ask => exact Nat.succ_pos _

/-- The wait for the response to request `id` that starts on board `b`. -/
def Board.waitFor (T : Transport σ) (o : ClientOptions) (b : Board σ) (c : Connection)
    (id : Nat) : Wait :=
  await id c.abandoned o.requestTimeout (b.session.now + o.requestTimeout) b.session.now
    (T.arrivals b.session.now b.session.wire)

/-- The write of a line that starts on board `b`. -/
def Board.sending (T : Transport σ) (b : Board σ) (line : String) : Sending σ :=
  T.write b.session.now line b.session.wire

/-- `Driven T o i b c p b'`: the holder `i` of `b`, whose operation has got to
connection `c` and is to go on with `p`, brings the board to `b'`. -/
inductive Driven (T : Transport σ) (o : ClientOptions) (i : Nat) :
    Board σ → Connection → Progress → Board σ → Prop
  | ended {b : Board σ} {c : Connection} {r : Outcome} :
      Driven T o i b c (.ended r) ((b.setConn c).setPlace i (.ended (.returned r))).release
  | told {b : Board σ} {c : Connection} {q : Query} {s : Session σ} {r : Reply} :
      look T (b.setConn c).session q = (s, r) →
      Driven T o i b c (.next (.ask q))
        ({ b.setConn c with session := s }.setPlace i (.ended (.returned (.ok r)))).release
  | overflows {b : Board σ} {c : Connection} {purpose : Purpose} {id : Nat} :
      clockEnd ≤ b.session.now + o.requestTimeout →
      Driven T o i b c (.next (.await purpose id))
        ((b.setConn c).setPlace i (.ended (.crashed clockOverflow))).release
  | reads {b : Board σ} {c : Connection} {purpose : Purpose} {id : Nat} :
      b.session.now + o.requestTimeout < clockEnd →
      b.session.now < (b.waitFor T o c id).ends →
      Driven T o i b c (.next (.await purpose id))
        ((b.setConn c).setPlace i (.reading purpose (b.waitFor T o c id)))
  | read {b b' : Board σ} {c c' : Connection} {p' : Progress} {purpose : Purpose} {id : Nat} :
      b.session.now + o.requestTimeout < clockEnd →
      (b.waitFor T o c id).ends ≤ b.session.now →
      c.settled purpose (b.waitFor T o c id).verdict = (c', p') →
      Driven T o i ((b.setConn c).setWire
        (T.take b.session.now (b.waitFor T o c id).taken b.session.wire)) c' p' b' →
      Driven T o i b c (.next (.await purpose id)) b'
  | writes {b : Board σ} {c : Connection} {why : Writing} {line : String} :
      (b.sending T line).ends.any (· ≤ b.session.now) = false →
      Driven T o i b c (.next (.write why line))
        ((b.setConn c).setPlace i (.writing why (b.sending T line)))
  | wrote {b b' : Board σ} {c c' : Connection} {p' : Progress} {why : Writing} {line : String} :
      (b.sending T line).ends.any (· ≤ b.session.now) = true →
      c.written why (b.sending T line).result = (c', p') →
      Driven T o i ((b.setConn c).setWire (b.sending T line).after) c' p' b' →
      Driven T o i b c (.next (.write why line)) b'
  | stops {b : Board σ} {c : Connection} {grace : Duration} :
      b.session.now < (T.stop b.session.now grace b.session.wire).ends →
      Driven T o i b c (.next (.stop grace))
        ((b.setConn c).setPlace i (.stopping (T.stop b.session.now grace b.session.wire)))
  | stopped {b b' : Board σ} {c c' : Connection} {p' : Progress} {grace : Duration} :
      (T.stop b.session.now grace b.session.wire).ends ≤ b.session.now →
      c.stopped (T.stop b.session.now grace b.session.wire).result = (c', p') →
      Driven T o i ((b.setConn c).setWire (T.stop b.session.now grace b.session.wire).after) c' p'
        b' →
      Driven T o i b c (.next (.stop grace)) b'

/-- With as much fuel as the operation has phases the drive gets to its end. -/
theorem driven_drive (T : Transport σ) (o : ClientOptions) (i fuel : Nat) :
    ∀ (b : Board σ) (c : Connection) (p : Progress), p.rank ≤ fuel →
      Driven T o i b c p (drive T o i fuel b (c, p)) := by
  induction fuel with
  | zero => exact fun b c p hrank => absurd (rank_pos p) (Nat.not_lt.mpr hrank)
  | succ fuel ih =>
      intro b c p hrank
      cases p with
      | ended r => exact .ended
      | next p =>
          cases p with
          | ask q => exact .told rfl
          | await purpose id =>
              have hrank' : (c.settled purpose (b.waitFor T o c id).verdict).2.rank ≤ fuel :=
                Nat.le_trans (rank_settled _ _ _) (Nat.le_of_succ_le_succ hrank)
              simp only [drive]
              split
              · exact .overflows ‹_›
              · rename_i hclock
                split
                · exact .read (Nat.not_le.mp hclock) ‹_› rfl (ih _ _ _ hrank')
                · rename_i hends
                  exact .reads (Nat.not_le.mp hclock) (Nat.not_le.mp hends)
          | write why line =>
              have hrank' : (c.written why (b.sending T line).result).2.rank ≤ fuel :=
                Nat.le_of_lt_succ (Nat.lt_of_lt_of_le (rank_written c why line _) hrank)
              simp only [drive]
              split
              · exact .wrote ‹_› rfl (ih _ _ _ hrank')
              · rename_i hends
                exact .writes (Bool.eq_false_iff.mpr hends)
          | stop grace =>
              simp only [drive]
              split
              · exact .stopped ‹_› rfl (ih _ _ _ (Nat.le_of_succ_le_succ hrank))
              · rename_i hends
                exact .stops (Nat.not_le.mp hends)

/-- The fuel with which the schedule drives is enough for every operation. -/
theorem driven_phases (T : Transport σ) (o : ClientOptions) (i : Nat) (b : Board σ)
    (c : Connection) (p : Progress) : Driven T o i b c p (drive T o i phases b (c, p)) :=
  driven_drive T o i phases b c p (Nat.le_succ_of_le (rank_le p))

/-- The holder `i` of `b` is to go on with `p`; the board knows the connection
only from then on. -/
structure Drives (o : ClientOptions) (P : List (String × Bool) → σ → Prop) (b : Board σ)
    (i : Nat) (c : Connection) (p : Progress) (h : History) : Prop where
  held : Held b i
  run : Run o h
  now : h.now = (settle (c, p)).1
  wire : P h.writes b.session.wire
  given : ∀ j r, b.placeOf j = some (.ended (.returned r)) → Given h r
  ended : ∀ r, p = .ended r → Given h r

section Drive

variable {T : Transport σ} {o : ClientOptions} {P : List (String × Bool) → σ → Prop}
variable {b : Board σ} {i : Nat} {h : History}

/-- An event takes the holder on. -/
theorem drives_of_step {e : Event} {c : Connection} {p : Progress} (hheld : Held b i)
    (hrun : Run o h) (hstep : h.now.step o e = some (settle (c, p)))
    (hwire : P (History.writes (⟨h.now, e, (settle (c, p)).1, (settle (c, p)).2⟩ :: h))
      b.session.wire)
    (hgiven : ∀ j r, b.placeOf j = some (.ended (.returned r)) → Given h r) :
    Drives o P b i c p (⟨h.now, e, (settle (c, p)).1, (settle (c, p)).2⟩ :: h) where
  held := hheld
  run := .cons hrun hstep
  now := rfl
  wire := hwire
  given := fun j r hj => given_of_append [_] (hgiven j r hj)
  ended := by
    rintro r rfl
    exact .inl ⟨_, List.mem_cons_self, rfl⟩

/-- The holder ends, and the connection is given on. -/
theorem tracks_of_ended {e : Ending} (hheld : Held b i) (hrun : Run o h)
    (hnow : h.now = { conn := b.session.conn }) (hwire : P h.writes b.session.wire)
    (hgiven : ∀ j r, b.placeOf j = some (.ended (.returned r)) → Given h r)
    (he : ∀ r, e = .returned r → Given h r) :
    Sane (b.setPlace i (.ended e)).release ∧
      Tracks o P (b.setPlace i (.ended e)).release h := by
  refine ⟨sane_of_ended hheld e, hrun, congrArg Client.conn hnow, ?_, hwire, ?_⟩
  · refine stands_of_free (congrArg Client.phase hnow) fun p hp => ?_
    obtain ⟨j, _, hj⟩ := Option.bind_eq_some_iff.mp hp
    exact not_waits_of_ended hheld e hj
  · intro j r hj
    by_cases hji : j = i
    · subst hji
      cases (placeOf_setPlace_self (.ended e) hheld.there).symm.trans hj
      exact he r rfl
    · exact hgiven j r ((placeOf_setPlace_ne (b := b) _ hji).symm.trans hj)

/-- The holder goes to wait. -/
theorem tracks_of_waits {p : Place σ} (hheld : Held b i) (hp : p.waits) (hrun : Run o h)
    (hconn : h.now.conn = b.session.conn) (hstands : Stands o P h.writes h.now (some p))
    (hwire : P h.writes b.session.wire)
    (hgiven : ∀ j r, b.placeOf j = some (.ended (.returned r)) → Given h r) :
    Sane (b.setPlace i p) ∧ Tracks o P (b.setPlace i p) h := by
  have hself : (b.setPlace i p).placeOf i = some p := placeOf_setPlace_self p hheld.there
  refine ⟨sane_of_waits hheld hp, hrun, hconn, ?_, hwire, ?_⟩
  · have hholder : (b.setPlace i p).holder = some i := hheld.holder
    rw [hholder, Option.bind_some, hself]
    exact hstands
  · intro j r hj
    by_cases hji : j = i
    · subst hji
      cases hself.symm.trans hj
      exact hp.elim
    · exact hgiven j r ((placeOf_setPlace_ne p hji).symm.trans hj)

/-- Some event brings the end of a wait. -/
theorem step_of_verdict {s : Client} {purpose : Purpose} {id : Nat} {v : Verdict}
    (hp : s.phase = some (.await purpose id))
    (hv : v = .refuse (.readTimeout o.requestTimeout) ∨
      ∃ item, judge id s.conn.abandoned o.requestTimeout item = some v) :
    ∃ e, e.isStart = false ∧ Entry.wrote ⟨s, e, (settle (s.conn.settled purpose v)).1,
        (settle (s.conn.settled purpose v)).2⟩ = none ∧
      s.step o e = some (settle (s.conn.settled purpose v)) := by
  rcases hv with rfl | ⟨item, hj⟩
  · refine ⟨.expired, rfl, ?_, ?_⟩
    · simp only [Entry.wrote, hp]
    · simp only [step, hp]
  · refine ⟨.heard item, rfl, ?_, ?_⟩
    · simp only [Entry.wrote, hp]
    · rw [step_heard hp, hj]

/-- A look takes no time. -/
theorem now_of_look (T : Transport σ) (s : Session σ) (q : Query) :
    (look T s q).1.now = s.now := by
  cases q with
  | connected =>
      rw [look]
      split <;> rfl
  | state | server | stderr | lastId => rfl

theorem conn_of_look (T : Transport σ) (s : Session σ) (q : Query) :
    (look T s q).1.conn = s.conn := by
  cases q with
  | connected =>
      rw [look]
      split <;> rfl
  | state | server | stderr | lastId => rfl

/-- An answered question leaves the connection and what is kept as they are. -/
theorem look_keeps (hk : Keeps T P) {ls : List (String × Bool)} {s : Session σ} (q : Query)
    (hs : P ls s.wire) :
    (look T s q).1.conn = s.conn ∧ P ls (look T s q).1.wire := by
  refine ⟨conn_of_look T s q, ?_⟩
  cases q with
  | connected =>
      rw [look]
      split
      · exact hs
      · exact hk.connected _ _ _ hs
  | state | server | stderr | lastId => exact hs

/-- The holder ends at an event, which gives what it ends with. -/
theorem leads_of_last {e : Event} {out : Option Outcome} {ending : Ending} (hheld : Held b i)
    (hrun : Run o h) (he : e.isStart = false)
    (hstep : h.now.step o e = some ({ conn := b.session.conn }, out))
    (hwire : P (History.writes (⟨h.now, e, { conn := b.session.conn }, out⟩ :: h)) b.session.wire)
    (hgiven : ∀ j r, b.placeOf j = some (.ended (.returned r)) → Given h r)
    (hout : ∀ r, ending = .returned r → out = some r) :
    Leads o P (b.setPlace i (.ended ending)).release h := by
  refine ⟨[⟨h.now, e, { conn := b.session.conn }, out⟩], by simpa using he,
    tracks_of_ended hheld (.cons hrun hstep) rfl hwire ?_ ?_⟩
  · exact fun j r hj => given_of_append [_] (hgiven j r hj)
  · exact fun r hr => .inl ⟨_, List.mem_cons_self, hout r hr⟩

/-- What the rest of the drive leads to, an event leads to that comes before it. -/
theorem leads_of_step {b' : Board σ} {e : Event} {s : Client} {out : Option Outcome}
    (he : e.isStart = false) (hrest : Leads o P b' (⟨h.now, e, s, out⟩ :: h)) :
    Leads o P b' h := by
  obtain ⟨later, hquiet, hsane, htracks⟩ := hrest
  rw [List.append_cons] at htracks
  refine ⟨_, ?_, hsane, htracks⟩
  intro x hx
  rcases List.mem_append.mp hx with hx | hx
  · exact hquiet x hx
  · rw [List.mem_singleton.mp hx]
    exact he

/-- The drive of the holder is a stretch of the run.  The induction is on the
phases; each is followed by one event of the run. -/
theorem driven_leads (hk : Keeps T P) {b' : Board σ} {c : Connection} {p : Progress}
    (hdriven : Driven T o i b c p b') :
    ∀ {h : History}, Drives o P b i c p h → Leads o P b' h := by
  induction hdriven with
  | @ended b c r =>
      intro h hd
      refine leads_of_tracks
        (tracks_of_ended (held_setConn hd.held c) hd.run hd.now hd.wire hd.given ?_)
      rintro r' hr
      cases hr
      exact hd.ended r rfl
  | @told b c q s r hlook =>
      intro h hd
      have hheld : Held (b.setConn c) i := held_setConn hd.held c
      have hp : h.now.phase = some (.ask q) := congrArg Client.phase hd.now
      obtain ⟨hconn, hkept⟩ := look_keeps hk (s := (b.setConn c).session) q hd.wire
      rw [hlook] at hconn hkept
      dsimp only at hconn hkept
      have hstep : h.now.step o (.told r) = some ({ conn := s.conn }, some (.ok r)) := by
        rw [hd.now, hconn]
        rfl
      refine leads_of_last (held_setSession hheld s) hd.run rfl hstep
        (kept_of_quiet (by simp only [Entry.wrote, hp]) hkept) hd.given ?_
      rintro r' hr
      cases hr
      rfl
  | @overflows b c purpose id hclock =>
      -- the deadline is beyond the clock: the operation is gone
      intro h hd
      have hp : h.now.phase = some (.await purpose id) := congrArg Client.phase hd.now
      have hstep : h.now.step o .dropped = some ({ conn := c }, none) := by
        rw [hd.now]
        rfl
      exact leads_of_last (held_setConn hd.held c) hd.run rfl hstep
        (kept_of_quiet (by simp only [Entry.wrote, hp]) hd.wire) hd.given nofun
  | @reads b c purpose id hclock hends =>
      intro h hd
      have hp : h.now.phase = some (.await purpose id) := congrArg Client.phase hd.now
      have hconn : h.now.conn = c := congrArg Client.conn hd.now
      have hverdict := await_verdict id c.abandoned o.requestTimeout
        (b.session.now + o.requestTimeout) b.session.now (T.arrivals b.session.now b.session.wire)
      exact leads_of_tracks (tracks_of_waits (held_setConn hd.held c) trivial hd.run hconn
        ⟨id, hp, hconn ▸ hverdict⟩ hd.wire hd.given)
  | @read b b' c c' p' purpose id hclock hends hsettled hrest ih =>
      intro h hd
      have hp : h.now.phase = some (.await purpose id) := congrArg Client.phase hd.now
      have hconn : h.now.conn = c := congrArg Client.conn hd.now
      have hverdict := await_verdict id c.abandoned o.requestTimeout
        (b.session.now + o.requestTimeout) b.session.now (T.arrivals b.session.now b.session.wire)
      rw [← hconn] at hverdict
      obtain ⟨e, hstart, hquiet, he⟩ := step_of_verdict hp hverdict
      rw [hconn] at he hquiet
      change h.now.step o e = some (settle (c.settled purpose (b.waitFor T o c id).verdict)) at he
      rw [hsettled] at he
      refine leads_of_step hstart (ih (drives_of_step
        (held_setWire (held_setConn hd.held c) _) hd.run he ?_ hd.given))
      refine kept_of_quiet ?_ (hk.take _ _ _ _ hd.wire)
      rw [← hsettled]
      exact hquiet
  | @writes b c why line hends =>
      intro h hd
      have hp : h.now.phase = some (.write why line) := congrArg Client.phase hd.now
      refine leads_of_tracks (tracks_of_waits (held_setConn hd.held c) trivial hd.run
        (congrArg Client.conn hd.now) ?_ hd.wire hd.given)
      exact ⟨line, hp, hk.written _ _ _ _ hd.wire, fun t => hk.unwritten _ _ t _ _ hd.wire⟩
  | @wrote b b' c c' p' why line hends hwritten hrest ih =>
      intro h hd
      have hp : h.now.phase = some (.write why line) := congrArg Client.phase hd.now
      have hstep : h.now.step o (.written (b.sending T line).result)
          = some (settle (c', p')) := by
        rw [← hwritten, hd.now]
        rfl
      refine leads_of_step rfl (ih (drives_of_step
        (held_setWire (held_setConn hd.held c) _) hd.run hstep ?_ hd.given))
      rw [writes_cons, Entry.wrote]
      simp only [hp, Option.toList_some]
      exact hk.written _ _ _ _ hd.wire
  | @stops b c grace hends =>
      intro h hd
      have hp : h.now.phase = some (.stop grace) := congrArg Client.phase hd.now
      exact leads_of_tracks (tracks_of_waits (held_setConn hd.held c) trivial hd.run
        (congrArg Client.conn hd.now)
        ⟨⟨grace, hp⟩, hk.stopped _ _ _ _ hd.wire, hk.unstopped _ _ _ _ hd.wire⟩ hd.wire hd.given)
  | @stopped b b' c c' p' grace hends hstopped hrest ih =>
      intro h hd
      have hp : h.now.phase = some (.stop grace) := congrArg Client.phase hd.now
      have hstep : h.now.step o (.stopped (T.stop b.session.now grace b.session.wire).result)
          = some (settle (c', p')) := by
        rw [← hstopped, hd.now]
        rfl
      exact leads_of_step rfl (ih (drives_of_step (held_setWire (held_setConn hd.held c) _) hd.run
        hstep (kept_of_quiet (by simp only [Entry.wrote, hp]) (hk.stopped _ _ _ _ hd.wire))
        hd.given))

end Drive

end Conformance
