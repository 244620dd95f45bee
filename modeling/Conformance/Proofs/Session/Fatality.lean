/-
Conformance — what an error says of the connection.

A fatal error ends the connection, and nothing else but a shutdown does.  `Fits` says
in which state of the connection an operation is in each of its phases, and
with what errors it can end in which state; each phase keeps it, so every
operation ends as `Fails` tells: its error is fatal if and only if the client is
disconnected from then on, and for the opening of a session the error inside
says so (`gives_of_gather`).

A session whose opening failed with an error that is not fatal can still be
opened (`opens_of_created`).
-/
import Conformance.Proofs.Json.RoundTrip
import Conformance.Proofs.Session.Clock

namespace Conformance

open Connection Board

variable {σ : Type}

/-! ## Operations and states -/

namespace Operation

/-- What the request of an operation is for. -/
def purpose : Operation → Option Purpose
  | .connect => some .opening
  | .request _ _ => some .answer
  | .listTools => some .listing
  | .unprintable _ => none
  | .notify _ => none
  | .shutdown _ => none
  | .ask _ => none

/-- An operation may end with error `e` and leave the connection in state `st`. -/
def Fails (op : Operation) (st : ClientState) (e : ClientError) : Prop :=
  match op with
  | .connect => ∃ inner, e = .handshake inner ∧ (inner.isFatal = true ↔ st = .disconnected) ∧
      (st = .disconnected ∨ st = .created)
  | .shutdown _ => st = .disconnected
  | .ask _ => False
  | .request _ _ => e.isFatal = true ↔ st = .disconnected
  | .unprintable _ => e.isFatal = true ↔ st = .disconnected
  | .listTools => e.isFatal = true ↔ st = .disconnected
  | .notify _ => e.isFatal = true ↔ st = .disconnected

/-- An operation may end with `r` and leave the connection in state `st`. -/
def Gives (op : Operation) (st : ClientState) : Outcome → Prop
  | .error e => op.Fails st e
  | .ok _ =>
      match op with
      | .ask _ => True
      | .shutdown _ => st = .disconnected
      | _ => st = .ready

/-- An operation may be about to do `p` in state `st`. -/
def Fits (op : Operation) (st : ClientState) : Progress → Prop
  | .next (.write (.request purpose _) _) => op.purpose = some purpose ∧ st = purpose.state
  | .next (.write (.announcement _) _) => op = .connect ∧ st = .opening
  | .next (.write .notification _) => (∃ n, op = .notify n) ∧ st = .ready
  | .next (.await purpose _) => op.purpose = some purpose ∧ st = purpose.state
  | .next (.stop _) => (∃ grace, op = .shutdown grace) ∧ st = .disconnected
  | .next (.ask q) => op = .ask q
  | .ended r => op.Gives st r

end Operation

section Phases

variable {op : Operation} {c : Connection} {purpose : Purpose}

/-- An exchange fails in the state that its error asks for. -/
theorem fits_fail (hop : op.purpose = some purpose) (hs : c.state = purpose.state)
    (e : ClientError) : op.Fits (c.fail purpose e).1.state (c.fail purpose e).2 := by
  rw [fail_eq]
  show op.Fails (c.failedState purpose e) (purpose.wrap e)
  simp only [failedState, hs]
  cases op with
  | connect =>
      cases hop
      refine ⟨e, rfl, ?_⟩
      cases e.isFatal <;> simp [Purpose.state]
  | request | listTools =>
      cases hop
      show e.isFatal = true ↔ _
      cases e.isFatal <;> simp [Purpose.state]
  | unprintable | notify | shutdown | ask => cases hop

/-- A refused operation fails as its state says. -/
theorem fails_of_refusal {e : ClientError} (h : c.refusal = some e) :
    e.isFatal = true ↔ c.state = .disconnected := by
  rw [refusal] at h
  cases hs : c.state with
  | ready =>
      rw [hs] at h
      cases h
  | created | opening =>
      rw [hs] at h
      cases h
      exact iff_of_false Bool.false_ne_true (by decide)
  | disconnected =>
      rw [hs] at h
      cases h
      exact ⟨fun _ => rfl, fun _ => rfl⟩

theorem fits_begin (o : ClientOptions) (c : Connection) (op : Operation) :
    op.Fits (c.begin o op).1.state (c.begin o op).2 := by
  cases op with
  | connect =>
      cases hs : c.state with
      | ready =>
          simp only [begin, hs]
          rfl
      | disconnected =>
          simp only [begin, hs]
          exact ⟨_, rfl, ⟨fun _ => rfl, fun _ => rfl⟩, .inl rfl⟩
      | created | opening =>
          simp only [begin, hs]
          exact ⟨rfl, rfl⟩
  | request | listTools =>
      cases hr : c.refusal with
      | some e =>
          simp only [begin, hr]
          exact fails_of_refusal hr
      | none =>
          simp only [begin, hr]
          exact ⟨rfl, refusal_eq_none_iff.mp hr⟩
  | unprintable cause =>
      cases hr : c.refusal with
      | some e =>
          simp only [begin, hr]
          exact fails_of_refusal hr
      | none =>
          have hready : c.spend.state = .ready := refusal_eq_none_iff.mp hr
          simp only [begin, hr]
          refine ⟨fun h => ?_, fun h => ?_⟩
          · cases h
          · cases hready.symm.trans h
  | notify n =>
      cases hr : c.refusal with
      | some e =>
          simp only [begin, hr]
          exact fails_of_refusal hr
      | none =>
          simp only [begin, hr]
          exact ⟨⟨n, rfl⟩, refusal_eq_none_iff.mp hr⟩
  | shutdown grace => exact ⟨⟨grace, rfl⟩, rfl⟩
  | ask q => rfl

theorem fits_written {why : Writing} {line : String}
    (h : op.Fits c.state (.next (.write why line))) (r : Except ClientError Unit) :
    op.Fits (c.written why r).1.state (c.written why r).2 := by
  cases why with
  | request purpose id =>
      cases r with
      | ok u => exact h
      | error e => exact fits_fail (c := { c with inFlight := none }) h.1 h.2 e
  | announcement info =>
      obtain ⟨rfl, hs⟩ := h
      cases r with
      | ok u => rfl
      | error e => exact fits_fail (show Operation.connect.purpose = some .opening from rfl) hs e
  | notification =>
      obtain ⟨⟨n, rfl⟩, hs⟩ := h
      cases r with
      | ok u => exact hs
      | error e =>
          simp only [written, note_eq]
          show e.isFatal = true ↔ _
          rw [hs]
          cases e.isFatal <;> simp

theorem toolsOf_not_fatal {r : Wire.Response} {e : ClientError} (h : toolsOf r = .error e) :
    e.isFatal = false := by
  obtain ⟨x, rfl⟩ | ⟨cause, raw, rfl⟩ := toolsOf_error h <;> rfl

theorem fits_settled {id : Nat} (h : op.Fits c.state (.next (.await purpose id))) (v : Verdict) :
    op.Fits (c.settled purpose v).1.state (c.settled purpose v).2 := by
  obtain ⟨hop, hs⟩ := h
  cases v with
  | refuse e => exact fits_fail hop hs e
  | misshapen e => exact fits_fail (c := { c with inFlight := none }) hop hs e
  | answer r =>
      cases purpose with
      | opening =>
          simp only [settled]
          rcases opened_cases { c with inFlight := none } r with ⟨e, _, heq⟩ | ⟨info, _, heq⟩
          · rw [heq]
            exact fits_fail (c := { c with inFlight := none }) hop hs e
          · rw [heq]
            refine ⟨?_, hs⟩
            cases op with
            | connect => rfl
            | _ => cases hop
      | answer =>
          cases op with
          | request => exact hs
          | _ => cases hop
      | listing =>
          cases op with
          | listTools =>
              simp only [settled]
              cases htools : toolsOf r with
              | ok ts => exact hs
              | error e =>
                  have hfatal := toolsOf_not_fatal htools
                  show e.isFatal = true ↔ c.state = .disconnected
                  rw [hfatal, hs]
                  simp [Purpose.state]
          | _ => cases hop

theorem fits_stopped {grace : Duration} (h : op.Fits c.state (.next (.stop grace)))
    (r : Except ClientError Unit) : op.Fits (c.stopped r).1.state (c.stopped r).2 := by
  obtain ⟨⟨g, rfl⟩, hs⟩ := h
  cases r with
  | ok u => exact hs
  | error e => exact hs

end Phases

/-! ## The place of a branch -/

/-- Where the branch of an operation may stand in state `st`. -/
def Place.Suits (op : Operation) (st : ClientState) : Place σ → Prop
  | .pausing _ => True
  | .resting _ => False
  | .queued op' => op' = op
  | .writing why _ => ∃ line, op.Fits st (.next (.write why line))
  | .reading purpose _ => ∃ id, op.Fits st (.next (.await purpose id))
  | .stopping _ => ∃ grace, op.Fits st (.next (.stop grace))
  | .ended (.returned r) => op.Gives st r
  | .ended .cancelled => True
  | .ended (.crashed _) => st ≠ .disconnected

section Boards

variable {T : Transport σ} {o : ClientOptions} {b b' : Board σ} {i : Nat} {op : Operation}

/-- The holder is driven to a place that suits its operation. -/
theorem suits_of_driven {c : Connection} {p : Progress} (hd : Driven T o i b c p b')
    (hthere : (b.placeOf i).isSome) (hfits : op.Fits c.state p) :
    ∃ q, b'.placeOf i = some q ∧ q.Suits op b'.session.conn.state := by
  induction hd with
  | ended => exact ⟨_, placeOf_setPlace_self _ hthere, hfits⟩
  | @told b c q s r hlook =>
      cases hfits
      exact ⟨_, placeOf_setPlace_self (b := { b.setConn c with session := s }) _ hthere, trivial⟩
  | overflows =>
      refine ⟨_, placeOf_setPlace_self _ hthere, fun hdown => ?_⟩
      exact purpose_state_ne _ (hfits.2.symm.trans hdown)
  | reads | writes | stops => exact ⟨_, placeOf_setPlace_self _ hthere, _, hfits⟩
  | @read b b' c c' p' purpose id _ _ hsettled _ ih =>
      have hnext := fits_settled hfits (b.waitFor T o c id).verdict
      rw [hsettled] at hnext
      exact ih hthere hnext
  | @wrote b b' c c' p' why line _ hwritten _ ih =>
      have hnext := fits_written hfits (b.sending T line).result
      rw [hwritten] at hnext
      exact ih hthere hnext
  | @stopped b b' c c' p' grace _ hstopped _ ih =>
      have hnext := fits_stopped hfits (T.stop b.session.now grace b.session.wire).result
      rw [hstopped] at hnext
      exact ih hthere hnext

/-- What a branch is there for. -/
def Board.workOf (b : Board σ) (i : Nat) : Option Work := (b.tasks[i]?).map (·.work)

theorem workOf_setTask (b : Board σ) (f : Task σ → Task σ) (hf : ∀ t, (f t).work = t.work)
    (j : Nat) : (b.setTask i f).workOf j = b.workOf j := by
  simp only [workOf, setTask, List.getElem?_modify]
  cases b.tasks[j]? with
  | none => rfl
  | some t => by_cases hij : i = j <;> simp [hij, hf]

theorem workOf_setPlace (b : Board σ) (i : Nat) (p : Place σ) (j : Nat) :
    (b.setPlace i p).workOf j = b.workOf j :=
  workOf_setTask b (fun t => { t with place := p }) (fun _ => rfl) j

theorem workOf_begun (b : Board σ) (i j : Nat) : (b.begun i).workOf j = b.workOf j :=
  workOf_setTask b (fun t => { t with dropAt := t.limit.map (b.session.now + ·) })
    (fun _ => rfl) j

theorem workOf_of_lands (h : Lands i b b') (j : Nat) : b'.workOf j = b.workOf j := by
  cases h with
  | @waits s p => exact workOf_setPlace { b with session := s } i p j
  | @ends s e => exact workOf_setPlace { b with session := s } i (.ended e) j

theorem workOf_of_goes (h : Goes T o i b b') (j : Nat) : b'.workOf j = b.workOf j := by
  cases h with
  | still => rfl
  | rests | refused => exact (workOf_setPlace (b.begun i) i _ j).trans (workOf_begun b i j)
  | @linesUp op =>
      exact (workOf_setPlace { b.begun i with line := b.line ++ [i] } i (.queued op) j).trans
        (workOf_begun b i j)
  | rested => exact workOf_setPlace b i _ j
  | enters _ _ hd => exact (workOf_of_lands (lands_of_driven hd) j).trans (workOf_begun b i j)
  | handed _ _ hd | wrote _ _ hd | read _ _ hd | stopped _ _ hd =>
      exact (workOf_of_lands (lands_of_driven hd) j).trans rfl

theorem workOf_of_drops (h : Drops i b b') (j : Nat) : b'.workOf j = b.workOf j := by
  cases h with
  | gone => rfl
  | idle | leaves => exact workOf_setPlace b i (.ended .cancelled) j
  | @letsGo p w => exact workOf_setPlace (b.setWire w) i (.ended .cancelled) j

/-- What a branch asks for is its work. -/
theorem work_of_asks {op : Operation} (h : b.asks i = some op) : b.workOf i = some (.use op) := by
  cases hi : b.tasks[i]? with
  | none =>
      rw [asks, hi] at h
      cases h
  | some t =>
      obtain ⟨_, _, _, hwork⟩ := (asks_eq_some_iff hi).mp h
      rw [workOf, hi, Option.map_some, hwork]

/-- A branch with an operation that is polled after its pause asks for the connection. -/
theorem asks_of_work {u : Instant} (hp : b.placeOf i = some (.pausing u))
    (hu : u ≤ b.session.now) (hw : b.workOf i = some (.use op)) : b.asks i = some op := by
  obtain ⟨t, hi, hplace⟩ := Option.map_eq_some_iff.mp hp
  rw [workOf, hi] at hw
  exact (asks_eq_some_iff hi).mpr ⟨u, hplace, hu, Option.some.inj hw⟩

/-! ## One operation alone -/

/-- There is one branch, and `op` is its work. -/
structure Alone (op : Operation) (b : Board σ) : Prop where
  sane : Sane b
  only : ∀ i p, b.placeOf i = some p → i = 0
  work : b.workOf 0 = some (.use op)
  place : ∀ p, b.placeOf 0 = some p → p.Suits op b.session.conn.state

/-- A branch that is alone finds the connection free. -/
theorem free_of_alone {u : Instant} (h : Alone op b) (hp : b.placeOf i = some (.pausing u)) :
    b.holder = none := by
  cases h.only i _ hp
  exact free_of_only h.sane h.only hp ⟨id, id⟩

theorem alone_of_goes (ha : Alone op b) (h : Goes T o i b b') : Alone op b' := by
  have hs : Sane b' := sane_of_goes ha.sane h
  have hwork : b'.workOf 0 = some (.use op) := (workOf_of_goes h 0).trans ha.work
  have honly : ∀ j p, b'.placeOf j = some p → j = 0 := by
    intro j p hp
    cases ht : b.tasks[j]? with
    | some t => exact ha.only j t.place (placeOf_of_task ht)
    | none =>
        have hnone : b'.workOf j = none := by rw [workOf_of_goes h, workOf, ht, Option.map_none]
        obtain ⟨t, ht', _⟩ := Option.map_eq_some_iff.mp hp
        rw [workOf, ht'] at hnone
        exact nomatch hnone
  have hdriven : ∀ {b₁ : Board σ} {c : Connection} {p : Progress} {q : Place σ},
      b.placeOf i = some q → Driven T o i b₁ c p b' → b₁.placeOf i = b.placeOf i →
      op.Fits c.state p → ∀ p, b'.placeOf 0 = some p → p.Suits op b'.session.conn.state := by
    intro b₁ c p q hq hd hsame hfits p' hp'
    cases ha.only i q hq
    obtain ⟨q', hq', hsuits⟩ := suits_of_driven hd (by rw [hsame, hq]; rfl) hfits
    cases hq'.symm.trans hp'
    exact hsuits
  refine ⟨hs, honly, hwork, ?_⟩
  cases h with
  | still => exact ha.place
  | @rests _ p hp hu hnone =>
      cases ha.only i _ hp
      exact nomatch hnone.symm.trans (asks_of_work hp hu ha.work)
  | rested hp =>
      cases ha.only i _ hp
      exact (ha.place _ hp).elim
  | refused hasks hheld | linesUp hasks hheld =>
      obtain ⟨u, hp⟩ := pausing_of_asks hasks
      exact absurd (free_of_alone ha hp) hheld
  | enters hasks _ hd =>
      obtain ⟨u, hp⟩ := pausing_of_asks hasks
      have hwork' := work_of_asks hasks
      cases ha.only i _ hp
      cases hwork'.symm.trans ha.work
      exact hdriven hp hd (placeOf_begun b 0 0) (fits_begin o _ op)
  | handed hp _ hd =>
      have hop := hp
      cases ha.only i _ hp
      cases ha.place _ hop
      exact hdriven hp hd rfl (fits_begin o _ op)
  | wrote hp _ hd =>
      have hsuits := hp
      cases ha.only i _ hp
      obtain ⟨line, hfits⟩ := ha.place _ hsuits
      exact hdriven hp hd rfl (fits_written hfits _)
  | read hp _ hd =>
      have hsuits := hp
      cases ha.only i _ hp
      obtain ⟨id, hfits⟩ := ha.place _ hsuits
      exact hdriven hp hd rfl (fits_settled hfits _)
  | stopped hp _ hd =>
      have hsuits := hp
      cases ha.only i _ hp
      obtain ⟨grace, hfits⟩ := ha.place _ hsuits
      exact hdriven hp hd rfl (fits_stopped hfits _)

theorem alone_of_drops (ha : Alone op b) (h : Drops i b b') : Alone op b' := by
  have hs : Sane b' := sane_of_drops ha.sane h
  have hwork : b'.workOf 0 = some (.use op) := (workOf_of_drops h 0).trans ha.work
  have hset : ∀ (b₁ : Board σ) {q : Place σ}, b.placeOf i = some q →
      (∀ j, b₁.placeOf j = (b.setPlace i (.ended .cancelled)).placeOf j) →
      (∀ j p, b₁.placeOf j = some p → j = 0) ∧
        ∀ p, b₁.placeOf 0 = some p → p.Suits op b₁.session.conn.state := by
    intro b₁ q hq hplaces
    cases ha.only i q hq
    refine ⟨fun j p hp => ?_, fun p hp => ?_⟩
    · by_cases hj : j = 0
      · exact hj
      · rw [hplaces, placeOf_setPlace_ne _ hj] at hp
        exact ha.only j p hp
    · rw [hplaces, placeOf_setPlace_self _ (by rw [hq]; rfl)] at hp
      cases hp
      trivial
  cases h with
  | gone => exact ha
  | idle hp =>
      obtain ⟨honly, hplace⟩ := hset (b.setPlace i (.ended .cancelled)) hp fun _ => rfl
      exact ⟨hs, honly, hwork, hplace⟩
  | leaves hp =>
      obtain ⟨honly, hplace⟩ := hset
        { b.setPlace i (.ended .cancelled) with line := b.line.filter (· ≠ i) } hp
        fun _ => rfl
      exact ⟨hs, honly, hwork, hplace⟩
  | @letsGo p w hp =>
      obtain ⟨honly, hplace⟩ := hset
        ((b.setWire w).setPlace i (.ended .cancelled)).release hp fun _ => rfl
      exact ⟨hs, honly, hwork, hplace⟩

theorem alone_of_moves (ha : Alone op b) (ms : List Move) : Alone op (b.moves T o ms) :=
  keeps_of_moves (Q := Alone op)
    (fun _ m hb => keeps_of_move (Q := Alone op) (fun _ _ _ => alone_of_goes)
      (fun _ _ _ => alone_of_drops) (fun _ _ hb => ⟨sane_of_move (T := T) (o := o) hb.sane (.clock _),
        hb.only, hb.work, hb.place⟩) hb m) ha ms

theorem alone_start {s : Session σ} {br : Branch} (hw : br.work = .use op) :
    Alone op (Board.start s [br]) := by
  have honly : ∀ i p, (Board.start s [br]).placeOf i = some p →
      i = 0 ∧ p = .pausing (s.now + br.pause) := by
    intro i p hp
    match i, hp with
    | 0, hp =>
        cases hp
        exact ⟨rfl, rfl⟩
  refine ⟨sane_start s [br], fun i p hp => (honly i p hp).1, congrArg some hw, fun p hp => ?_⟩
  rw [(honly 0 p hp).2]
  trivial

/-- An operation that runs alone ends as it may. -/
theorem gives_of_gather (T : Transport σ) (o : ClientOptions) (mode : Gather)
    (deadline : Option Instant) {br : Branch} (hw : br.work = .use op) {s s' : Session σ}
    {r : Outcome} (h : gather T o mode deadline [br] s = (s', some [.returned r])) :
    op.Gives s'.conn.state r := by
  rw [gather_eq] at h
  have halone := alone_of_moves (T := T) (o := o) (alone_start (s := s) hw)
    (runMoves T o mode deadline (passBound [br].length) (Board.start s [br]))
  rw [← run_eq_moves] at halone
  generalize Board.run T o mode deadline _ (Board.start s [br]) = result at h halone
  obtain ⟨b, dropped⟩ := result
  cases dropped with
  | true => exact nomatch h
  | false =>
      obtain ⟨hsession, hendings⟩ := Prod.mk.inj h
      obtain ⟨t, htasks, hending⟩ := List.map_eq_singleton_iff.mp (Option.some.inj hendings)
      have hplace : b.placeOf 0 = some (.ended (.returned r)) := by
        rw [placeOf, htasks, ← place_of_ending hending]
        rfl
      exact hsession ▸ halone.place _ hplace

end Boards

/-! ## A session that can be opened -/

/-- The line that answers the opening request and opens the session. -/
def openingLine (id : Nat) : String :=
  (Json.obj [("id", .nat id), ("result", .obj [])]).print

/-- A server that takes so many lines, and answers the opening request with this id at once. -/
def obliging (id : Nat) : Transport Nat where
  write now _ w := .at now (w - 1, if 0 < w then .ok () else .error (.io "broken pipe"))
  arrivals now _ := [⟨now, .ok (.line (openingLine id))⟩]
  take _ _ w := w
  connected _ w := (w, true)
  stop now _ w := { ends := now, after := w, result := .ok (), dropped := w }
  stderr _ _ := []

theorem trim_of_braces (cs : List Char) :
    Text.trim (String.ofList ('\x7b' :: (cs ++ ['\x7d'])))
      = String.ofList ('\x7b' :: (cs ++ ['\x7d'])) := by
  have hopen : Text.isBlank '\x7b' = false := by decide
  have hclose : Text.isBlank '\x7d' = false := by decide
  rw [Text.trim, Text.trimChars, String.toList_ofList]
  simp [hopen, hclose]

theorem parse_openingLine {id : Nat} (h : id < Word.bound) :
    Json.parse (Text.trim (openingLine id)) = .ok (.obj [("id", .nat id), ("result", .obj [])]) := by
  have htrim : Text.trim (openingLine id) = openingLine id := by
    rw [openingLine, Json.print, Json.text]
    exact trim_of_braces _
  rw [htrim]
  refine Json.parse_print_of_sorted ?_ ?_ ?_
  · have hkeys : (["id", "result"] : List String).Pairwise (· < ·) := by decide
    simp only [Json.sorted, List.map_cons, List.map_nil, hkeys]
    rfl
  · simp only [Word.bound] at h
    simp [Json.integral, Json.integralMembers, Json.nat, Json.Number.isWord, Word.bound,
      Word.signedBound]
    omega
  · simp [Json.depth, Json.depthMembers, Json.nat, Json.nestingLimit]

theorem word_nat {id : Nat} (h : id < Word.bound) : Wire.word (.nat id) = .ok id := by
  have hrange : (decide (0 ≤ (id : Int)) && decide ((id : Int) ≤ Word.bound - 1)) = true := by
    rw [Bool.and_eq_true, decide_eq_true_eq, decide_eq_true_eq]
    simp only [Word.bound] at h ⊢
    omega
  simp only [Wire.word, Wire.integer, Json.nat, hrange, if_true]
  rfl

theorem responseOf_openingLine {id : Nat} (h : id < Word.bound) :
    responseOf (.ok (.line (openingLine id))) = some { id, result := some (.obj []) } := by
  have hdecode : Wire.Response.decode (.obj [("id", .nat id), ("result", .obj [])])
      = .ok { id, result := some (.obj []) } := by
    simp [Wire.Response.decode, Wire.record, Wire.member, List.lookup_cons, word_nat h, Wire.value,
      Wire.required, Except.map, bind, Except.bind, pure, Except.pure]
  simp only [responseOf, parse_openingLine h, hdecode]
  rfl

/-- A session whose opening failed, or was not tried, can be opened. -/
theorem opens_of_created {o : ClientOptions} {c : Connection} {now : Instant} (n : Nat)
    (hs : c.state = .created) (hid : c.lastId + 1 < Word.bound) (hlimit : 0 < o.requestTimeout)
    (hclock : now + o.requestTimeout < clockEnd) :
    gather (obliging (c.lastId + 1)) o .all none [{ work := .use .connect }]
        { now, conn := c, wire := n + 2 }
      = ({ now, wire := n, conn :=
            { state := .ready, lastId := c.lastId + 1, abandoned := c.inFlight.or c.abandoned,
              server := some {} } },
          some [.returned (.ok .done)]) := by
  have hcloses : Closes (c.lastId + 1) (c.inFlight.or c.abandoned) o.requestTimeout now []
      ⟨now, .ok (.line (openingLine (c.lastId + 1)))⟩
      (.answer { id := c.lastId + 1, result := some (.obj []) }) :=
    { positive := hlimit
      silent := nofun
      early := nofun
      inTime := Nat.le_add_right _ _
      decides := .answer (responseOf_openingLine hid) rfl rfl }
  have hawait : await (c.lastId + 1) (c.inFlight.or c.abandoned) o.requestTimeout
      (now + o.requestTimeout) now [⟨now, .ok (.line (openingLine (c.lastId + 1)))⟩]
        = { ends := max now now, taken := 1,
            verdict := .answer { id := c.lastId + 1, result := some (.obj []) } } :=
    await_of_closes hcloses nofun
  rw [Nat.max_self] at hawait
  have hbefore : ¬ clockEnd ≤ now + o.requestTimeout := Nat.not_le.mpr hclock
  have hdecode : Wire.OpenResult.decode (.obj []) = .ok {} := rfl
  simp only [gather, List.map_cons, List.map_nil, List.length_singleton, passBound]
  rw [Board.run]
  simp [Board.pass, poll, goOn, beginWork, acquire, enter, phases, drive, begin, hs,
    Connection.start, setTask, setPlace, release, setConn, setWire, Task.stops, Task.isEnded,
    dropAll, ending, drop, hbefore, obliging, Sending.at, written, hawait, settled, opened,
    hdecode]

end Conformance
