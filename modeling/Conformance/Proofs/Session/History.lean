/-
Conformance — runs, and the two marks of a connection.

A run is what has happened to a client so far, event by event.  What was asked,
what could not be written and what was answered is read off the run, not off
the client: the client keeps two ids only, the one in flight and the highest
that was given up.

`Marked` says what the two ids are worth.  The one in flight is outstanding and
the last that was given; the mark is outstanding; and every outstanding id is
the one in flight or no higher than the mark.  So the mark is the highest
outstanding id but the one in flight.  `Books` is what an event can do to the
ids, in five clauses, and `marked_of_run` goes by these.

`Fits` is the other half: in which state of the connection each phase is.
-/
import Conformance.Proofs.Session.Turn

namespace Conformance

/-! ## Runs -/

/-- An event, and the client before and after it. -/
structure Entry where
  before : Client
  event : Event
  after : Client
  outcome : Option Outcome

/-- What has happened to a client, the latest first. -/
abbrev History := List Entry

def History.now : History → Client
  | [] => {}
  | x :: _ => x.after

/-- The histories of a client. -/
inductive Run (o : ClientOptions) : History → Prop
  | nil : Run o []
  | cons {h : History} {e : Event} {s : Client} {r : Option Outcome} : Run o h →
      h.now.step o e = some (s, r) → Run o (⟨h.now, e, s, r⟩ :: h)

/-- The history of some events, those left out that cannot happen. -/
def History.play (o : ClientOptions) (es : List Event) : History :=
  es.foldl
    (fun h e =>
      match (History.now h).step o e with
      | some (s, r) => ⟨History.now h, e, s, r⟩ :: h
      | none => h)
    []

theorem run_play (o : ClientOptions) (es : List Event) : Run o (History.play o es) := by
  suffices hfold : ∀ h, Run o h → Run o (es.foldl
      (fun h e =>
        match (History.now h).step o e with
        | some (s, r) => ⟨History.now h, e, s, r⟩ :: h
        | none => h)
      h) from hfold [] .nil
  induction es with
  | nil => exact fun h hrun => hrun
  | cons e rest ih =>
      intro h hrun
      rw [List.foldl_cons]
      cases hs : (History.now h).step o e with
      | none => exact ih h hrun
      | some p => exact ih _ (.cons hrun hs)

/-- What has happened before is a run. -/
theorem run_of_append {o : ClientOptions} {later earlier : History}
    (h : Run o (later ++ earlier)) : Run o earlier := by
  induction later with
  | nil => exact h
  | cons x rest ih =>
      cases h with
      | cons hrun _ => exact ih hrun

/-- An entry of a run is a turn of the client that the run before had led to. -/
theorem turn_of_entry {o : ClientOptions} {x : Entry} {h : History} (hrun : Run o (x :: h)) :
    x.before = h.now ∧ Client.Turn o h.now x.event x.after x.outcome := by
  cases hrun with
  | cons _ hs => exact ⟨rfl, Client.turn_of_step hs⟩

/-- What holds at the start and is kept by every turn holds of every run. -/
theorem run_induction {o : ClientOptions} {P : History → Prop} (hnil : P [])
    (hcons : ∀ h e s r, Run o h → P h → Client.Turn o h.now e s r → P (⟨h.now, e, s, r⟩ :: h))
    {h : History} (hrun : Run o h) : P h := by
  induction hrun with
  | nil => exact hnil
  | cons hrun hs ih => exact hcons _ _ _ _ hrun ih (Client.turn_of_step hs)

/-! ## What is read off a run -/

namespace Entry

/-- The line whose write begins. -/
def begins (x : Entry) : Option (Writing × String) :=
  match x.after.phase with
  | some (.write why line) => some (why, line)
  | _ => none

/-- The request whose write begins. -/
def asks (x : Entry) : Option Nat :=
  match x.after.phase with
  | some (.write (.request _ id) _) => some id
  | _ => none

/-- The request whose write fails. -/
def fails (x : Entry) : Option Nat :=
  match x.event, x.before.phase with
  | .written (.error _), some (.write (.request _ id) _) => some id
  | _, _ => none

/-- The own response that an exchange takes. -/
def accepts (x : Entry) : Option Wire.Response :=
  match x.event, x.before.phase with
  | .heard item, some (.await _ id) => (responseOf item).filter (·.id = id)
  | _, _ => none

def answers (x : Entry) : Option Nat := x.accepts.map (·.id)

theorem answers_of_own {c : Connection} {purpose : Purpose} {item : Except ClientError Incoming}
    {after : Client} {outcome : Option Outcome} {r : Wire.Response}
    (h : responseOf item = some r) :
    answers ⟨⟨c, some (.await purpose r.id)⟩, .heard item, after, outcome⟩ = some r.id := by
  simp [answers, accepts, h]

theorem answers_of_foreign {c : Connection} {purpose : Purpose} {id : Nat}
    {item : Except ClientError Incoming} {after : Client} {outcome : Option Outcome}
    (h : ∀ {r : Wire.Response}, responseOf item = some r → r.id ≠ id) :
    answers ⟨⟨c, some (.await purpose id)⟩, .heard item, after, outcome⟩ = none := by
  simp only [answers, accepts, Option.map_eq_none_iff, Option.filter_eq_none_iff, decide_eq_true_eq]
  exact fun r hr => h hr

end Entry

namespace History

/-- The ids of the requests whose write has begun. -/
def asked (h : History) : List Nat := h.filterMap Entry.asks

/-- The ids of the requests whose write has failed. -/
def unsent (h : History) : List Nat := h.filterMap Entry.fails

/-- The ids of the requests whose response has been taken. -/
def answered (h : History) : List Nat := h.filterMap Entry.answers

/-- The request has been written, whole or in part, and its response not been taken. -/
def Outstanding (h : History) (id : Nat) : Prop :=
  id ∈ h.asked ∧ id ∉ h.unsent ∧ id ∉ h.answered

variable {x : Entry} {h : History} {id : Nat}

theorem mem_asked_cons : id ∈ asked (x :: h) ↔ x.asks = some id ∨ id ∈ h.asked := by
  cases hx : x.asks <;> simp [asked, hx, eq_comm]

theorem mem_unsent_cons : id ∈ unsent (x :: h) ↔ x.fails = some id ∨ id ∈ h.unsent := by
  cases hx : x.fails <;> simp [unsent, hx, eq_comm]

theorem mem_answered_cons : id ∈ answered (x :: h) ↔ x.answers = some id ∨ id ∈ h.answered := by
  cases hx : x.answers <;> simp [answered, hx, eq_comm]

/-- An event that asks nothing settles a request or leaves all as they are. -/
theorem outstanding_cons (ha : x.asks = none) : Outstanding (x :: h) id ↔
    h.Outstanding id ∧ x.fails ≠ some id ∧ x.answers ≠ some id := by
  simp only [Outstanding, mem_asked_cons, mem_unsent_cons, mem_answered_cons, ha, not_or]
  tauto

/-- A new request is outstanding beside the others. -/
theorem outstanding_cons_of_asks {new : Nat} (ha : x.asks = some new) (hf : x.fails = none)
    (hw : x.answers = none) (hnew : new ∉ h.unsent ∧ new ∉ h.answered) :
    Outstanding (x :: h) id ↔ id = new ∨ h.Outstanding id := by
  simp only [Outstanding, mem_asked_cons, mem_unsent_cons, mem_answered_cons, ha, hf, hw,
    Option.some.injEq, reduceCtorEq, false_or]
  constructor
  · rintro ⟨rfl | hin, hu, ht⟩
    · exact .inl rfl
    · exact .inr ⟨hin, hu, ht⟩
  · rintro (rfl | ⟨hin, hu, ht⟩)
    · exact ⟨.inl rfl, hnew⟩
    · exact ⟨.inr hin, hu, ht⟩

end History

/-! ## What an event does to the ids -/

namespace Client

/-- The request that the operation is busy with. -/
def pending (s : Client) : Option Nat :=
  match s.phase with
  | some (.write (.request _ id) _) => some id
  | some (.await _ id) => some id
  | _ => none

/-- `Books s s' a f w`: of the requests, `a` is asked, the write of `f` fails
and `w` is answered on the way from `s` to `s'`. -/
inductive Books (s s' : Client) : Option Nat → Option Nat → Option Nat → Prop
  | asks : s'.conn.lastId = s.conn.lastId + 1 → s'.conn.inFlight = some (s.conn.lastId + 1) →
      s'.conn.abandoned = s.conn.inFlight.or s.conn.abandoned →
      s'.pending = some (s.conn.lastId + 1) → Books s s' (some (s.conn.lastId + 1)) none none
  | spends : s'.conn.lastId = s.conn.lastId + 1 → s'.conn.inFlight = none →
      s'.conn.abandoned = s.conn.inFlight.or s.conn.abandoned →
      s'.pending = none → Books s s' none none none
  | fails {id : Nat} : s.pending = some id → s'.conn.lastId = s.conn.lastId →
      s'.conn.inFlight = none → s'.conn.abandoned = s.conn.abandoned →
      s'.pending = none → Books s s' none (some id) none
  | answers {id : Nat} : s.pending = some id → s'.conn.lastId = s.conn.lastId →
      s'.conn.inFlight = none → s'.conn.abandoned = s.conn.abandoned →
      s'.pending = none → Books s s' none none (some id)
  | keeps : s'.conn.lastId = s.conn.lastId → s'.conn.inFlight = s.conn.inFlight →
      s'.conn.abandoned = s.conn.abandoned → s'.pending = s.pending ∨ s'.pending = none →
      Books s s' none none none

end Client

theorem books_of_turn {o : ClientOptions} {s s' : Client} {e : Event} {r : Option Outcome}
    (h : Client.Turn o s e s' r) :
    Client.Books s s' (Entry.asks ⟨s, e, s', r⟩) (Entry.fails ⟨s, e, s', r⟩)
      (Entry.answers ⟨s, e, s', r⟩) := by
  obtain ⟨c, phase⟩ := s
  cases h with
  | asks hp =>
      cases hp
      exact .asks rfl rfl rfl rfl
  | unprintable hp =>
      cases hp
      exact .spends rfl rfl rfl rfl
  | unsent hp =>
      cases hp
      exact .fails rfl rfl rfl rfl rfl
  | answered hp hr | listed hp hr | opens hp hr | unopened hp hr | misshapen hp hr =>
      cases hp
      rw [Entry.answers_of_own hr]
      exact .answers rfl rfl rfl rfl rfl
  | passes hp hs =>
      cases hp
      rw [Entry.answers_of_foreign (not_own_of_silent hs)]
      exact .keeps rfl rfl rfl (.inl rfl)
  | refuses hp hd =>
      cases hp
      rw [Entry.answers_of_foreign (not_own_of_refuse hd)]
      exact .keeps rfl rfl rfl (.inr rfl)
  | declined hp | notifies hp | shutsDown hp | questions hp | sent hp =>
      cases hp
      exact .keeps rfl rfl rfl (.inl rfl)
  | announced hp | unannounced hp | notified hp | unnotified hp | expires hp | stopped hp
  | told hp | dropped hp =>
      cases hp
      exact .keeps rfl rfl rfl (.inr rfl)

/-! ## What the marks are worth -/

/-- The ids that the client keeps after `h`, against `h`. -/
structure Marked (h : History) : Prop where
  given : ∀ id ∈ h.asked, 1 ≤ id ∧ id ≤ h.now.conn.lastId
  unsent_asked : ∀ id ∈ h.unsent, id ∈ h.asked
  answered_asked : ∀ id ∈ h.answered, id ∈ h.asked
  busy : ∀ id, h.now.pending = some id → h.now.conn.inFlight = some id
  flight : ∀ id, h.now.conn.inFlight = some id → id = h.now.conn.lastId ∧ h.Outstanding id
  mark : ∀ id, h.now.conn.abandoned = some id →
    h.Outstanding id ∧ ∀ j, h.now.conn.inFlight = some j → id < j
  covered : ∀ id, h.Outstanding id →
    h.now.conn.inFlight = some id ∨ ∃ m, h.now.conn.abandoned = some m ∧ id ≤ m

theorem marked_nil : Marked [] where
  given := by simp [History.asked]
  unsent_asked := by simp [History.unsent]
  answered_asked := by simp [History.answered]
  busy := nofun
  flight := nofun
  mark := nofun
  covered := by simp [History.Outstanding, History.asked]

section Marks

variable {x : Entry} {h : History}

theorem Marked.fresh (hm : Marked h) {id : Nat} (hid : h.now.conn.lastId < id) :
    id ∉ h.unsent ∧ id ∉ h.answered := by
  have hasked : id ∉ h.asked := fun hin => absurd (hm.given id hin).2 (Nat.not_le.mpr hid)
  exact ⟨fun hin => hasked (hm.unsent_asked id hin), fun hin => hasked (hm.answered_asked id hin)⟩

/-- When the next request starts, every outstanding id comes under the mark. -/
theorem Marked.under (hm : Marked h) {id : Nat} (hid : h.Outstanding id) :
    ∃ m, h.now.conn.inFlight.or h.now.conn.abandoned = some m ∧ id ≤ m := by
  rcases hm.covered id hid with hfl | ⟨m, hab, hle⟩
  · exact ⟨id, by rw [hfl, Option.some_or], le_refl id⟩
  · cases hfl : h.now.conn.inFlight with
    | none => exact ⟨m, by rw [hab, Option.none_or], hle⟩
    | some j =>
        have hlt : m < j := (hm.mark m hab).2 j hfl
        exact ⟨j, by rw [Option.some_or], Nat.le_of_lt (Nat.lt_of_le_of_lt hle hlt)⟩

/-- The mark that the next request finds is outstanding. -/
theorem Marked.marks (hm : Marked h) {id : Nat}
    (hid : h.now.conn.inFlight.or h.now.conn.abandoned = some id) : h.Outstanding id := by
  cases hfl : h.now.conn.inFlight with
  | none =>
      rw [hfl, Option.none_or] at hid
      exact (hm.mark id hid).1
  | some j =>
      rw [hfl, Option.some_or, Option.some.injEq] at hid
      exact (hm.flight id (hid ▸ hfl)).2

theorem marked_of_asks (hm : Marked h) (ha : x.asks = some (h.now.conn.lastId + 1))
    (hf : x.fails = none) (hw : x.answers = none)
    (hl : x.after.conn.lastId = h.now.conn.lastId + 1)
    (hfl : x.after.conn.inFlight = some (h.now.conn.lastId + 1))
    (hab : x.after.conn.abandoned = h.now.conn.inFlight.or h.now.conn.abandoned)
    (hp : x.after.pending = some (h.now.conn.lastId + 1)) : Marked (x :: h) := by
  have hout : ∀ id, History.Outstanding (x :: h) id ↔
      id = h.now.conn.lastId + 1 ∨ h.Outstanding id := fun id =>
    History.outstanding_cons_of_asks ha hf hw (hm.fresh (Nat.lt_succ_self _))
  constructor
  · intro id hid
    show 1 ≤ id ∧ id ≤ x.after.conn.lastId
    rw [History.mem_asked_cons, ha, Option.some.injEq] at hid
    rcases hid with rfl | hid
    · exact ⟨Nat.le_add_left 1 _, hl.ge⟩
    · exact ⟨(hm.given id hid).1, by rw [hl]; exact Nat.le_succ_of_le (hm.given id hid).2⟩
  · intro id hid
    rw [History.mem_unsent_cons, hf] at hid
    exact History.mem_asked_cons.mpr (.inr (hm.unsent_asked id (by simpa using hid)))
  · intro id hid
    rw [History.mem_answered_cons, hw] at hid
    exact History.mem_asked_cons.mpr (.inr (hm.answered_asked id (by simpa using hid)))
  · exact fun id hid => hfl.trans (hp.symm.trans hid)
  · intro id hid
    have hlast : h.now.conn.lastId + 1 = id := Option.some.inj (hfl.symm.trans hid)
    exact ⟨hlast.symm.trans hl.symm, (hout id).mpr (.inl hlast.symm)⟩
  · -- the new mark is the id that was in flight, or the old mark
    intro id hid
    have hold : h.Outstanding id := hm.marks (hab.symm.trans hid)
    refine ⟨(hout id).mpr (.inr hold), fun j hj => ?_⟩
    have hlast : h.now.conn.lastId + 1 = j := Option.some.inj (hfl.symm.trans hj)
    rw [← hlast]
    exact Nat.lt_succ_of_le (hm.given id hold.1).2
  · intro id hid
    rcases (hout id).mp hid with rfl | hold
    · exact .inl hfl
    · obtain ⟨m, hor, hle⟩ := hm.under hold
      exact .inr ⟨m, hab.trans hor, hle⟩

/-- What is not asked anew settles at most a request that was asked before. -/
theorem Marked.lists (hm : Marked h) (ha : x.asks = none)
    (hl : h.now.conn.lastId ≤ x.after.conn.lastId)
    (hs : ∀ id, x.fails = some id ∨ x.answers = some id → id ∈ h.asked) :
    (∀ id ∈ History.asked (x :: h), 1 ≤ id ∧ id ≤ x.after.conn.lastId) ∧
      (∀ id ∈ History.unsent (x :: h), id ∈ History.asked (x :: h)) ∧
      ∀ id ∈ History.answered (x :: h), id ∈ History.asked (x :: h) := by
  have hasked : ∀ id, id ∈ History.asked (x :: h) ↔ id ∈ h.asked := fun id => by
    rw [History.mem_asked_cons, ha]
    simp
  refine ⟨fun id hid => ?_, fun id hid => ?_, fun id hid => ?_⟩
  · have hold := hm.given id ((hasked id).mp hid)
    exact ⟨hold.1, Nat.le_trans hold.2 hl⟩
  · rcases History.mem_unsent_cons.mp hid with hf | hold
    · exact (hasked id).mpr (hs id (.inl hf))
    · exact (hasked id).mpr (hm.unsent_asked id hold)
  · rcases History.mem_answered_cons.mp hid with hw | hold
    · exact (hasked id).mpr (hs id (.inr hw))
    · exact (hasked id).mpr (hm.answered_asked id hold)

theorem marked_of_spends (hm : Marked h) (ha : x.asks = none) (hf : x.fails = none)
    (hw : x.answers = none) (hl : x.after.conn.lastId = h.now.conn.lastId + 1)
    (hfl : x.after.conn.inFlight = none)
    (hab : x.after.conn.abandoned = h.now.conn.inFlight.or h.now.conn.abandoned)
    (hp : x.after.pending = none) : Marked (x :: h) := by
  obtain ⟨hgiven, hunsent, hanswered⟩ := hm.lists ha (hl ▸ Nat.le_succ _)
    (by rw [hf, hw]; simp)
  have hout : ∀ id, History.Outstanding (x :: h) id ↔ h.Outstanding id := fun id => by
    rw [History.outstanding_cons ha, hf, hw]
    simp
  refine ⟨hgiven, hunsent, hanswered, ?_, ?_, ?_, ?_⟩
  · exact fun id hid => nomatch hp.symm.trans hid
  · exact fun id hid => nomatch hfl.symm.trans hid
  · exact fun id hid =>
      ⟨(hout id).mpr (hm.marks (hab.symm.trans hid)), fun j hj => nomatch hfl.symm.trans hj⟩
  · intro id hid
    obtain ⟨m, hor, hle⟩ := hm.under ((hout id).mp hid)
    exact .inr ⟨m, hab.trans hor, hle⟩

/-- The request under way is settled, by a write that fails or by its response. -/
theorem marked_of_settles (hm : Marked h) {id : Nat} (ha : x.asks = none)
    (hs : (x.fails = some id ∧ x.answers = none) ∨ (x.fails = none ∧ x.answers = some id))
    (hbusy : h.now.pending = some id) (hl : x.after.conn.lastId = h.now.conn.lastId)
    (hfl : x.after.conn.inFlight = none)
    (hab : x.after.conn.abandoned = h.now.conn.abandoned) (hp : x.after.pending = none) :
    Marked (x :: h) := by
  have hflight : h.now.conn.inFlight = some id := hm.busy id hbusy
  have hsettled : ∀ j, x.fails = some j ∨ x.answers = some j ↔ j = id := fun j => by
    rcases hs with ⟨hf, hw⟩ | ⟨hf, hw⟩ <;> simp [hf, hw, eq_comm]
  have hout : ∀ j, History.Outstanding (x :: h) j ↔ h.Outstanding j ∧ j ≠ id := fun j => by
    rw [History.outstanding_cons ha, ← not_or, hsettled]
  obtain ⟨hgiven, hunsent, hanswered⟩ := hm.lists ha hl.ge fun j hj =>
    (hsettled j).mp hj ▸ (hm.flight id hflight).2.1
  refine ⟨hgiven, hunsent, hanswered, ?_, ?_, ?_, ?_⟩
  · exact fun j hj => nomatch hp.symm.trans hj
  · exact fun j hj => nomatch hfl.symm.trans hj
  · -- the settled id was in flight, hence above the mark, which stays outstanding
    intro j hj
    obtain ⟨hold, hlt⟩ := hm.mark j (hab.symm.trans hj)
    exact ⟨(hout j).mpr ⟨hold, Nat.ne_of_lt (hlt id hflight)⟩,
      fun k hk => nomatch hfl.symm.trans hk⟩
  · intro j hj
    obtain ⟨hold, hne⟩ := (hout j).mp hj
    rcases hm.covered j hold with hfl' | ⟨m, hmark, hle⟩
    · exact absurd (Option.some.inj (hfl'.symm.trans hflight)) hne
    · exact .inr ⟨m, hab.trans hmark, hle⟩

theorem marked_of_keeps (hm : Marked h) (ha : x.asks = none) (hf : x.fails = none)
    (hw : x.answers = none) (hl : x.after.conn.lastId = h.now.conn.lastId)
    (hfl : x.after.conn.inFlight = h.now.conn.inFlight)
    (hab : x.after.conn.abandoned = h.now.conn.abandoned)
    (hp : x.after.pending = h.now.pending ∨ x.after.pending = none) : Marked (x :: h) := by
  obtain ⟨hgiven, hunsent, hanswered⟩ := hm.lists ha hl.ge (by rw [hf, hw]; simp)
  have hout : ∀ id, History.Outstanding (x :: h) id ↔ h.Outstanding id := fun id => by
    rw [History.outstanding_cons ha, hf, hw]
    simp
  refine ⟨hgiven, hunsent, hanswered, ?_, ?_, ?_, ?_⟩
  · intro id hid
    rcases hp with hp | hp
    · exact hfl.trans (hm.busy id (hp.symm.trans hid))
    · exact nomatch hp.symm.trans hid
  · intro id hid
    obtain ⟨hlast, hold⟩ := hm.flight id (hfl.symm.trans hid)
    exact ⟨hlast.trans hl.symm, (hout id).mpr hold⟩
  · intro id hid
    obtain ⟨hold, hlt⟩ := hm.mark id (hab.symm.trans hid)
    exact ⟨(hout id).mpr hold, fun j hj => hlt j (hfl.symm.trans hj)⟩
  · intro id hid
    rcases hm.covered id ((hout id).mp hid) with hold | ⟨m, hmark, hle⟩
    · exact .inl (hfl.trans hold)
    · exact .inr ⟨m, hab.trans hmark, hle⟩

theorem marked_of_books (hm : Marked h)
    (hb : Client.Books h.now x.after x.asks x.fails x.answers) : Marked (x :: h) := by
  generalize ha : x.asks = a, hf : x.fails = f, hw : x.answers = w at hb
  cases hb with
  | asks hl hfl hab hp => exact marked_of_asks hm ha hf hw hl hfl hab hp
  | spends hl hfl hab hp => exact marked_of_spends hm ha hf hw hl hfl hab hp
  | fails hbusy hl hfl hab hp =>
      exact marked_of_settles hm ha (.inl ⟨hf, hw⟩) hbusy hl hfl hab hp
  | answers hbusy hl hfl hab hp =>
      exact marked_of_settles hm ha (.inr ⟨hf, hw⟩) hbusy hl hfl hab hp
  | keeps hl hfl hab hp => exact marked_of_keeps hm ha hf hw hl hfl hab hp

end Marks

/-- After every run the marks are worth what they should. -/
theorem marked_of_run {o : ClientOptions} {h : History} (hrun : Run o h) : Marked h :=
  run_induction marked_nil
    (fun _ _ _ _ _ hm hturn => marked_of_books hm (books_of_turn hturn)) hrun

/-- The mark is the highest outstanding id but the one in flight. -/
theorem le_mark_iff {h : History} (hm : Marked h) {id : Nat} :
    (∃ m, h.now.conn.abandoned = some m ∧ id ≤ m) ↔
      ∃ j, h.Outstanding j ∧ h.now.conn.inFlight ≠ some j ∧ id ≤ j := by
  constructor
  · rintro ⟨m, hab, hle⟩
    obtain ⟨hout, hlt⟩ := hm.mark m hab
    exact ⟨m, hout, fun hfl => Nat.lt_irrefl m (hlt m hfl), hle⟩
  · rintro ⟨j, hout, hne, hle⟩
    rcases hm.covered j hout with hfl | ⟨m, hab, hjm⟩
    · exact absurd hfl hne
    · exact ⟨m, hab, Nat.le_trans hle hjm⟩

/-! ## Phases and states -/

/-- The state of the connection is the one in which the phase of the operation is. -/
def Client.Fits (s : Client) : Prop :=
  match s.phase with
  | some (.write (.request purpose _) _) => s.conn.state = purpose.state
  | some (.write (.announcement _) _) => s.conn.state = .opening
  | some (.write .notification _) => s.conn.state = .ready
  | some (.await purpose _) => s.conn.state = purpose.state
  | some (.stop _) => s.conn.state = .disconnected
  | some (.ask _) => True
  | none => True

theorem fits_of_turn {o : ClientOptions} {s s' : Client} {e : Event} {r : Option Outcome}
    (hfits : s.Fits) (h : Client.Turn o s e s' r) : s'.Fits := by
  obtain ⟨c, phase⟩ := s
  cases h with
  | asks hp => rfl
  | notifies hp hs => exact hs
  | shutsDown hp => rfl
  | questions hp => trivial
  | sent hp =>
      cases hp
      exact hfits
  | passes hp hs => exact hfits
  | opens hp =>
      cases hp
      exact hfits
  | declined hp => exact hfits
  | _ => trivial

theorem fits_of_run {o : ClientOptions} {h : History} (hrun : Run o h) : h.now.Fits :=
  run_induction (P := fun h => h.now.Fits) trivial
    (fun _ _ _ _ _ hfits hturn => fits_of_turn hfits hturn) hrun

end Conformance
