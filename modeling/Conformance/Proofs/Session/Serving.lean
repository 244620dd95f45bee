/-
Conformance — a server that answers in time.

`Prompt` is a server that, left in quiet, takes every request and answers it
well within the wait, with nothing before the answer but lines that no request is
meant by, and is quiet again when the answer has been read.  How it does so,
and what it answers, is up to it (`Service`).

Branches that share an open session with it are served one after the other.
`Serving` is what holds of their board under every schedule that drops none of
them: whoever waits will get the answer to its own request, and whoever has
ended has got it.  A poll keeps this, and brings the branch nearer to its end
if it does anything at all (`serving_of_poll`).
-/
import Conformance.Proofs.Session.Queueing
import Mathlib.Data.List.Perm.Subperm

namespace Conformance

open Client Connection Board

variable {σ : Type}

/-! ## The server -/

/-- What an inquiry gives when `r` is the response to it. -/
def Inquiry.gives (q : Inquiry) (r : Wire.Response) : Outcome :=
  match q.purpose with
  | .answer => .ok (.response r)
  | .listing => (toolsOf r).map .tools
  | .opening => .ok .done

/-- What is known of a server. -/
structure Service (σ : Type) where
  /-- From this instant on it owes nothing: the requests up to this id have been
  answered, and the answers read. -/
  quiet : Nat → Instant → σ → Prop
  /-- It may answer this inquiry with this response. -/
  replies : Inquiry → Wire.Response → Prop
  /-- How long it takes to read a line, and to answer. -/
  lag : Duration
  /-- The last id that it answers. -/
  bound : Nat

/-- From instant `t` on, a wait finds response `r` in time; when it has been read the
server is quiet. -/
def Answers (T : Transport σ) (v : Service σ) (t : Instant) (w : σ) (r : Wire.Response) : Prop :=
  ∀ now, t ≤ now → ∃ pre a post, T.arrivals now w = pre ++ a :: post ∧
    (∀ x ∈ pre, Silent r.id none x.item ∧ x.time ≤ a.time) ∧
    responseOf a.item = some r ∧ r.misshape = none ∧ a.time ≤ now + v.lag ∧
    ∀ t', max now a.time ≤ t' → v.quiet r.id t' (T.take t' (pre.length + 1) w)

/-- The server answers every request once, in time and with the request's own id. -/
structure Prompt (T : Transport σ) (v : Service σ) : Prop where
  later : ∀ n t t' w, v.quiet n t w → t ≤ t' → v.quiet n t' w
  looks : ∀ n t w, v.quiet n t w → v.quiet n t (T.connected t w).1
  answers : ∀ n t w q, v.quiet n t w → n < v.bound → q.purpose ≠ .opening →
    ∃ ends r, (T.write t (q.line (n + 1)) w).ends = some ends ∧ ends ≤ t + v.lag ∧
      (T.write t (q.line (n + 1)) w).result = .ok () ∧ r.id = n + 1 ∧ v.replies q r ∧
      Answers T v ends (T.write t (q.line (n + 1)) w).after r

/-- What tells nobody anything tells nothing to one who has given requests up. -/
theorem silent_of_unmarked {id : Nat} {item : Except ClientError Incoming}
    (h : Silent id none item) (mark : Option Nat) : Silent id mark item := by
  cases h with
  | blank hb => exact .blank hb
  | message hp hm => exact .message hp hm
  | late _ _ hmark => exact nomatch hmark

/-- The wait for an answer that comes in time. -/
theorem await_of_answers {T : Transport σ} {v : Service σ} {t now : Instant} {w : σ}
    {r : Wire.Response} {limit : Duration} (h : Answers T v t w r) (hnow : t ≤ now)
    (hlag : v.lag < limit) (mark : Option Nat) :
    let found := await r.id mark limit (now + limit) now (T.arrivals now w)
    found.verdict = .answer r ∧ found.ends ≤ now + v.lag ∧
      ∀ t', found.ends ≤ t' → v.quiet r.id t' (T.take t' found.taken w) := by
  obtain ⟨pre, a, post, harrivals, hpre, hr, hshape, hin, hquiet⟩ := h now hnow
  have hcloses : Closes r.id mark limit now pre a (.answer r) :=
    { positive := Nat.zero_lt_of_lt hlag
      silent := fun x hx => silent_of_unmarked (hpre x hx).1 mark
      early := fun x hx => Nat.lt_of_le_of_lt (hpre x hx).2
        (Nat.lt_of_le_of_lt hin (Nat.add_lt_add_left hlag now))
      inTime := Nat.le_trans hin (Nat.add_le_add_left (Nat.le_of_lt hlag) now)
      decides := .answer hr rfl hshape }
  rw [harrivals, await_of_closes hcloses fun x hx => (hpre x hx).2]
  exact ⟨rfl, max_le (Nat.le_add_right _ _) hin, hquiet⟩

/-! ## What a branch has been promised -/

/-- How far a branch is from its end. -/
def Place.left : Place σ → Nat
  | .pausing _ => 4
  | .queued _ => 3
  | .writing _ _ => 2
  | .reading _ _ => 1
  | .resting _ => 1
  | .stopping _ => 1
  | .ended _ => 0

/-- When time alone takes a branch on from its place. -/
def Place.wake : Place σ → Option Instant
  | .pausing u => some u
  | .resting u => some u
  | .queued _ => none
  | .writing _ s => s.ends
  | .reading _ w => some w.ends
  | .stopping s => some s.ends
  | .ended _ => none

/-- Branch `i` makes inquiry `q` on session `s`, and `given` are the ids of the requests so
far: the branch waits for the answer to its own request, or has got it. -/
def Place.Fits (T : Transport σ) (o : ClientOptions) (v : Service σ)
    (given : List (Nat × Option Nat)) (s : Session σ) (q : Inquiry) (i : Nat) : Place σ → Prop
  | .pausing _ => True
  | .resting _ => False
  | .queued op => op.asks o = some q
  | .writing why st => why = .request q.purpose s.conn.lastId ∧ st.result = .ok () ∧
      ∃ ends r, st.ends = some ends ∧ r.id = s.conn.lastId ∧ (i, some r.id) ∈ given ∧
        v.replies q r ∧ Answers T v ends st.after r
  | .reading purpose w => purpose = q.purpose ∧
      ∃ r, w.verdict = .answer r ∧ r.id = s.conn.lastId ∧ (i, some r.id) ∈ given ∧
        v.replies q r ∧ ∀ t, w.ends ≤ t → v.quiet r.id t (T.take t w.taken s.wire)
  | .stopping _ => False
  | .ended e => ∃ r, (i, some r.id) ∈ given ∧ v.replies q r ∧ e = .returned (q.gives r)

section Exchange

variable {T : Transport σ} {o : ClientOptions} {v : Service σ} {b b' : Board σ} {i id : Nat}
variable {q : Inquiry} {given : List (Nat × Option Nat)}

/-- A branch that does not wait for the transport fits any session, and whatever is given
later. -/
theorem fits_of_idle {given' : List (Nat × Option Nat)} {s s' : Session σ} {p : Place σ}
    (hp : ¬ p.waits) (hsub : given ⊆ given') (hfits : p.Fits T o v given s q i) :
    p.Fits T o v given' s' q i := by
  cases p with
  | writing | reading | stopping => exact absurd trivial hp
  | pausing | resting | queued => exact hfits
  | ended e =>
      obtain ⟨r, hr, hreplies, he⟩ := hfits
      exact ⟨r, hsub hr, hreplies, he⟩

/-- Branch `i`, driven at instant `now` with request `id`, has got to a place no further than
`k` from its end. -/
structure Carried (T : Transport σ) (o : ClientOptions) (v : Service σ)
    (given : List (Nat × Option Nat)) (q : Inquiry) (i id k : Nat) (now : Instant) (b : Board σ) :
    Prop where
  state : b.session.conn.state = .ready
  lastId : b.session.conn.lastId = id
  place : ∃ p, b.placeOf i = some p ∧ p.Fits T o v given b.session q i ∧ p.left ≤ k ∧
    ∀ u, p.wake = some u → now < u ∧ u ≤ now + v.lag
  quiet : ∀ e, b.placeOf i = some (.ended e) → v.quiet id now b.session.wire

theorem carried_le {k k' : Nat} {now : Instant} (h : Carried T o v given q i id k now b)
    (hk : k ≤ k') : Carried T o v given q i id k' now b := by
  obtain ⟨p, hp, hfits, hleft, hwake⟩ := h.place
  exact ⟨h.state, h.lastId, ⟨p, hp, hfits, Nat.le_trans hleft hk, hwake⟩, h.quiet⟩

/-- The answer ends the operation. -/
theorem settled_of_answer (c : Connection) (hq : q.purpose ≠ .opening) (r : Wire.Response) :
    c.settled q.purpose (.answer r) = ({ c with inFlight := none }, .ended (q.gives r)) := by
  simp only [settled, Inquiry.gives]
  cases hp : q.purpose with
  | opening => exact absurd hp hq
  | answer | listing => rfl

/-- The answer has been read. -/
theorem carried_of_answer {c c' : Connection} {p' : Progress} {r : Wire.Response} (hheld : Held b i)
    (hq : q.purpose ≠ .opening) (hstate : c.state = .ready) (hlast : c.lastId = r.id)
    (hgiven : (i, some r.id) ∈ given) (hreplies : v.replies q r)
    (hquiet : v.quiet r.id b.session.now b.session.wire)
    (hsettled : c.settled q.purpose (.answer r) = (c', p')) (hd : Driven T o i b c' p' b') :
    Carried T o v given q i r.id 0 b.session.now b' := by
  rw [settled_of_answer c hq] at hsettled
  cases hsettled
  cases hd
  have hplace : (((b.setConn { c with inFlight := none }).setPlace i
      (.ended (.returned (q.gives r)))).release).placeOf i
        = some (.ended (.returned (q.gives r))) :=
    placeOf_setPlace_self _ (held_setConn hheld _).there
  exact ⟨hstate, hlast, ⟨_, hplace, ⟨r, hgiven, hreplies, rfl⟩, Nat.le_refl 0, nofun⟩,
    fun _ _ => hquiet⟩

/-- The request has been written. -/
theorem carried_of_await {c : Connection} {r : Wire.Response} {t : Instant} (hheld : Held b i)
    (hq : q.purpose ≠ .opening) (hstate : c.state = .ready) (hlast : c.lastId = r.id)
    (hgiven : (i, some r.id) ∈ given) (hreplies : v.replies q r) (hlag : v.lag < o.requestTimeout)
    (hclock : b.session.now + o.requestTimeout < clockEnd)
    (hanswers : Answers T v t b.session.wire r) (ht : t ≤ b.session.now)
    (hd : Driven T o i b c (.next (.await q.purpose r.id)) b') :
    Carried T o v given q i r.id 1 b.session.now b' := by
  obtain ⟨hverdict, hends, hquiet⟩ := await_of_answers hanswers ht hlag c.abandoned
  cases hd with
  | overflows hover => exact absurd hclock (Nat.not_lt.mpr hover)
  | reads _ hlater =>
      have hplace : ((b.setConn c).setPlace i (.reading q.purpose (b.waitFor T o c r.id))).placeOf i
          = some (.reading q.purpose (b.waitFor T o c r.id)) :=
        placeOf_setPlace_self _ (held_setConn hheld c).there
      refine ⟨hstate, hlast, ⟨_, hplace, ⟨rfl, r, hverdict, hlast.symm, hgiven, hreplies, hquiet⟩,
        Nat.le_refl 1, ?_⟩, fun e he => nomatch hplace.symm.trans he⟩
      rintro u hu
      cases hu
      exact ⟨hlater, hends⟩
  | read _ hnow hsettled hrest =>
      rw [show (b.waitFor T o c r.id).verdict = .answer r from hverdict] at hsettled
      have hcarried := carried_of_answer (held_setWire (held_setConn hheld c) _) hq hstate hlast
        hgiven hreplies (hquiet _ hnow) hsettled hrest
      exact carried_le hcarried (Nat.zero_le 1)

/-- The request has got its id. -/
theorem carried_of_write {c : Connection} (hv : Prompt T v) (hheld : Held b i)
    (hq : q.purpose ≠ .opening) (hstate : c.state = .ready) (hlast : c.lastId = id + 1)
    (hgiven : (i, some (id + 1)) ∈ given) (hlag : v.lag < o.requestTimeout)
    (hclock : b.session.now + o.requestTimeout < clockEnd)
    (hquiet : v.quiet id b.session.now b.session.wire) (hbound : id < v.bound)
    (hd : Driven T o i b c
      (.next (.write (.request q.purpose (id + 1)) (q.line (id + 1)))) b') :
    Carried T o v given q i (id + 1) 2 b.session.now b' := by
  obtain ⟨ends, r, hends, hin, hok, hid, hreplies, hanswers⟩ :=
    hv.answers id b.session.now b.session.wire q hquiet hbound hq
  rw [← hid] at hgiven hlast
  cases hd with
  | writes hlater =>
      have hplace : ((b.setConn c).setPlace i
          (.writing (.request q.purpose (id + 1)) (b.sending T (q.line (id + 1))))).placeOf i
            = some (.writing (.request q.purpose (id + 1)) (b.sending T (q.line (id + 1)))) :=
        placeOf_setPlace_self _ (held_setConn hheld c).there
      have hwhy : Writing.request q.purpose (id + 1) = .request q.purpose c.lastId := by
        rw [hlast, hid]
      refine ⟨hstate, hlast.trans hid, ⟨_, hplace, ⟨hwhy, hok, ends, r, hends, hlast.symm, hgiven,
        hreplies, hanswers⟩, Nat.le_refl 2, ?_⟩, fun e he => nomatch hplace.symm.trans he⟩
      intro u hu
      cases hends.symm.trans hu
      rw [show (b.sending T (q.line (id + 1))).ends = some ends from hends, Option.any_some,
        decide_eq_false_iff_not] at hlater
      exact ⟨Nat.not_le.mp hlater, hin⟩
  | wrote hnow hwritten hrest =>
      rw [show (b.sending T (q.line (id + 1))).result = .ok () from hok] at hwritten
      cases hwritten
      rw [show (b.sending T (q.line (id + 1))).ends = some ends from hends, Option.any_some,
        decide_eq_true_eq] at hnow
      rw [show Progress.next (.await q.purpose (id + 1)) = .next (.await q.purpose r.id) from
        by rw [hid]] at hrest
      have hcarried := carried_of_await (held_setWire (held_setConn hheld c) _) hq hstate hlast
        hgiven hreplies hlag hclock hanswers hnow hrest
      rw [← hid]
      exact carried_le hcarried (Nat.le_succ 1)

/-- An operation that makes an inquiry on an open session starts with its request. -/
theorem begin_of_open {op : Operation} {c : Connection} (hstate : c.state = .ready)
    (hop : op.asks o = some q) (hq : q.purpose ≠ .opening) :
    c.begin o op = ({ c with
        lastId := c.lastId + 1
        inFlight := some (c.lastId + 1)
        abandoned := c.inFlight.or c.abandoned },
      .next (.write (.request q.purpose (c.lastId + 1)) (q.line (c.lastId + 1)))) := by
  have hopen : c.refusal = none := refusal_eq_none_iff.mpr hstate
  cases op with
  | request method params =>
      cases hop
      simp only [begin, hopen]
      rfl
  | listTools =>
      cases hop
      simp only [begin, hopen]
      rfl
  | connect =>
      cases hop
      exact absurd rfl hq
  | unprintable | notify | shutdown | ask => cases hop

end Exchange

/-! ## The branches -/

namespace Board

/-- What the branches are there for, their places apart. -/
def errands (b : Board σ) : List (Work × Option Duration × Option Instant) :=
  b.tasks.map fun t => (t.work, t.limit, t.dropAt)

section Errands

variable {b b' : Board σ} {i : Nat}

@[simp]
theorem errands_setPlace (b : Board σ) (i : Nat) (p : Place σ) :
    (b.setPlace i p).errands = b.errands := by
  refine List.ext_getElem? fun j => ?_
  simp only [errands, setPlace, setTask, List.getElem?_map, List.getElem?_modify]
  cases b.tasks[j]? with
  | none => rfl
  | some t => by_cases hij : i = j <;> simp [hij]

theorem placeOf_isSome_iff : (b.placeOf i).isSome ↔ i < b.errands.length := by
  simp [placeOf, errands]

theorem errands_of_lands (h : Lands i b b') : b'.errands = b.errands := by
  cases h with
  | @waits s p => exact errands_setPlace { b with session := s } i p
  | @ends s e => exact errands_setPlace { b with session := s } i (.ended e)

/-- A branch without a limit is not changed when its limit starts to count. -/
theorem begun_of_unlimited {w : Work} (h : b.errands[i]? = some (w, none, none)) :
    b.begun i = b := by
  rw [errands, List.getElem?_map] at h
  obtain ⟨t, ht, hw⟩ := Option.map_eq_some_iff.mp h
  have htasks : b.tasks.modify i (fun t => { t with dropAt := t.limit.map (b.session.now + ·) })
      = b.tasks := by
    refine List.ext_getElem? fun j => ?_
    rw [List.getElem?_modify]
    by_cases hij : i = j
    · subst hij
      obtain ⟨place, work, limit, dropAt⟩ := t
      cases hw
      simp [ht]
    · simp [hij]
  rw [begun, setTask, htasks]

end Errands

end Board

/-- The requests so far: their ids go up from `first` without a gap up to `last`, and no
branch has made two. -/
structure Counts (first : Nat) (given : List (Nat × Option Nat)) (last : Nat) : Prop where
  ids : given.map (·.2) = (List.range' (first + 1) given.length).map some
  last : last = first + given.length
  once : (given.map (·.1)).Nodup

theorem counts_append {first last i : Nat} {given : List (Nat × Option Nat)}
    (h : Counts first given last) (hi : i ∉ given.map (·.1)) :
    Counts first (given ++ [(i, some (last + 1))]) (last + 1) where
  ids := by
    rw [List.map_append, h.ids, List.length_append, List.length_singleton, List.range'_concat,
      List.map_append, h.last]
    simp [Nat.add_right_comm]
  last := by rw [List.length_append, List.length_singleton, h.last, Nat.add_assoc]
  once := by
    rw [List.map_append]
    refine List.nodup_append.mpr ⟨h.once, List.nodup_singleton i, fun j hj k hk hjk => ?_⟩
    rw [hjk, List.mem_singleton.mp hk] at hj
    exact hi hj

/-- Of `n` branches none is refused: they wait for each other, or there is but one. -/
def Lenient (o : ClientOptions) (n : Nat) : Prop := o.policy = .queue ∨ n ≤ 1

/-- What holds of the board of branches that make the inquiries `qs` on an open session with
a prompt server; `given` are the ids of their requests so far. -/
structure Serving (T : Transport σ) (o : ClientOptions) (v : Service σ) (qs : Nat → Inquiry)
    (first : Nat) (given : List (Nat × Option Nat)) (b : Board σ) : Prop where
  sane : Sane b
  state : b.session.conn.state = .ready
  counts : Counts first given b.session.conn.lastId
  started : ∀ i ∈ given.map (·.1), ∃ p, b.placeOf i = some p ∧ p.left ≤ 2
  errands : ∀ i e, b.errands[i]? = some e → ∃ op, e = (.use op, none, none) ∧
    op.asks o = some (qs i)
  fits : ∀ i p, b.placeOf i = some p → p.Fits T o v given b.session (qs i) i
  quiet : (∀ i p, b.placeOf i = some p → ¬ p.waits) →
    v.quiet b.session.conn.lastId b.session.now b.session.wire

/-- A poll of branch `i` does nothing, or brings the branch nearer to its end, at a place that
time takes it on from soon. -/
inductive Nears (lag : Duration) (i : Nat) (b : Board σ) : Board σ → Prop
  | still : ¬ b.ready i → Nears lag i b b
  | nearer {b' : Board σ} {p p' : Place σ} : b.placeOf i = some p → b'.placeOf i = some p' →
      p'.left < p.left → (∀ j, j ≠ i → b'.placeOf j = b.placeOf j) →
      b'.session.now = b.session.now → b'.errands = b.errands →
      (∀ u, p'.wake = some u → b.session.now < u ∧ u ≤ b.session.now + lag) → Nears lag i b b'

section Serving

variable {T : Transport σ} {o : ClientOptions} {v : Service σ} {qs : Nat → Inquiry}
variable {first : Nat} {given : List (Nat × Option Nat)} {b b' : Board σ} {i : Nat}

theorem errand_of_place (hb : Serving T o v qs first given b) {p : Place σ}
    (hp : b.placeOf i = some p) : ∃ op, b.errands[i]? = some (.use op, none, none) ∧
      op.asks o = some (qs i) := by
  have hi : i < b.errands.length := placeOf_isSome_iff.mp (by rw [hp]; rfl)
  obtain ⟨op, he, hop⟩ := hb.errands i _ (List.getElem?_eq_getElem hi)
  exact ⟨op, by rw [← he]; exact List.getElem?_eq_getElem hi, hop⟩

/-- A branch whose pause is over asks for its inquiry. -/
theorem asks_of_pausing (hb : Serving T o v qs first given b) {u : Instant}
    (hp : b.placeOf i = some (.pausing u)) (hu : u ≤ b.session.now) :
    ∃ op, b.asks i = some op := by
  obtain ⟨op, he, _⟩ := errand_of_place hb hp
  rw [errands, List.getElem?_map] at he
  obtain ⟨t, ht, hw⟩ := Option.map_eq_some_iff.mp he
  have hplace : t.place = .pausing u := Option.some.inj ((placeOf_of_task ht).symm.trans hp)
  exact ⟨op, (asks_eq_some_iff ht).mpr ⟨u, hplace, hu, congrArg Prod.fst hw⟩⟩

/-- What a branch asks for makes its inquiry. -/
theorem inquiry_of_asks (hb : Serving T o v qs first given b) {op : Operation}
    (hasks : b.asks i = some op) : op.asks o = some (qs i) := by
  obtain ⟨u, hp⟩ := pausing_of_asks hasks
  obtain ⟨op', he, hop⟩ := errand_of_place hb hp
  rw [errands, List.getElem?_map] at he
  obtain ⟨t, ht, hw⟩ := Option.map_eq_some_iff.mp he
  obtain ⟨_, _, _, hwork⟩ := (asks_eq_some_iff ht).mp hasks
  cases hwork.symm.trans (congrArg Prod.fst hw)
  exact hop

/-- There is an id left for a branch that has not made its request. -/
theorem room_of_unstarted (hb : Serving T o v qs first given b)
    (hroom : first + b.errands.length ≤ v.bound) {p : Place σ} (hp : b.placeOf i = some p)
    (hleft : 2 < p.left) : i ∉ given.map (·.1) ∧ b.session.conn.lastId < v.bound := by
  have hnew : i ∉ given.map (·.1) := by
    intro hi
    obtain ⟨q, hq, hle⟩ := hb.started i hi
    cases hp.symm.trans hq
    exact absurd hleft (Nat.not_lt.mpr hle)
  refine ⟨hnew, ?_⟩
  have hsub : i :: given.map (·.1) ⊆ List.range b.errands.length := by
    refine List.cons_subset.mpr ⟨?_, fun j hj => ?_⟩
    · exact List.mem_range.mpr (placeOf_isSome_iff.mp (by rw [hp]; rfl))
    · obtain ⟨q, hq, _⟩ := hb.started j hj
      exact List.mem_range.mpr (placeOf_isSome_iff.mp (by rw [hq]; rfl))
  have hlength := ((List.nodup_cons.mpr ⟨hnew, hb.counts.once⟩).subperm hsub).length_le
  have hlast := hb.counts.last
  simp only [List.length_cons, List.length_map, List.length_range] at hlength
  omega

theorem now_of_lands (h : Lands i b b') : b'.session.now = b.session.now := by
  cases h with
  | waits hnow => exact hnow
  | ends hnow => exact hnow

/-- Branch `i` is driven, and keeps what it is promised. -/
theorem serving_of_carried {b₁ : Board σ} {given' : List (Nat × Option Nat)} {id k : Nat}
    (hb : Serving T o v qs first given b) (hheld : Held b₁ i)
    (hplaces : ∀ j, b₁.placeOf j = b.placeOf j) (herrands : b₁.errands = b.errands)
    (hnow : b₁.session.now = b.session.now) (hlands : Lands i b₁ b')
    (hc : Carried T o v given' (qs i) i id k b.session.now b') (hk : k ≤ 2)
    (hcounts : Counts first given' id) (hsub : given ⊆ given')
    (hnew : ∀ j ∈ given'.map (·.1), j = i ∨ j ∈ given.map (·.1)) :
    Serving T o v qs first given' b' := by
  obtain ⟨p, hp, hfits, hleft, _⟩ := hc.place
  have hothers : ∀ j, j ≠ i → b'.placeOf j = b.placeOf j := fun j hj =>
    (placeOf_of_lands hlands hj).trans (hplaces j)
  refine ⟨sane_of_lands hheld hlands, hc.state, hc.lastId ▸ hcounts, ?_, ?_, ?_, ?_⟩
  · intro j hj
    by_cases hji : j = i
    · rw [hji]
      exact ⟨p, hp, Nat.le_trans hleft hk⟩
    · rw [hothers j hji]
      exact hb.started j ((hnew j hj).resolve_left hji)
  · rw [errands_of_lands hlands, herrands]
    exact hb.errands
  · intro j q hq
    by_cases hji : j = i
    · subst hji
      cases hp.symm.trans hq
      exact hfits
    · rw [hothers j hji] at hq
      have hidle : ¬ q.waits := hheld.others j q hji ((hplaces j).trans hq)
      exact fits_of_idle hidle hsub (hb.fits j q hq)
  · intro hidle
    have hidle' := hidle i p hp
    have hended : ∃ e, p = .ended e := by
      cases p with
      | ended e => exact ⟨e, rfl⟩
      | writing | reading | stopping => exact absurd trivial hidle'
      | resting => exact hfits.elim
      | pausing => exact absurd (Nat.le_trans hleft hk) (by decide : ¬ 4 ≤ 2)
      | queued => exact absurd (Nat.le_trans hleft hk) (by decide : ¬ 3 ≤ 2)
    obtain ⟨e, rfl⟩ := hended
    rw [hc.lastId, now_of_lands hlands, hnow]
    exact hc.quiet e hp

/-- Branch `i` starts its operation. -/
theorem serving_of_start {b₁ : Board σ} {op : Operation} {p : Place σ} (hv : Prompt T v)
    (hlag : v.lag < o.requestTimeout) (hq : ∀ i, (qs i).purpose ≠ .opening)
    (hroom : first + b.errands.length ≤ v.bound)
    (hclock : b.session.now + o.requestTimeout < clockEnd)
    (hb : Serving T o v qs first given b) (hstarts : b.starts i = some op)
    (hop : op.asks o = some (qs i)) (hp : b.placeOf i = some p) (hleft : 2 < p.left)
    (hheld : Held b₁ i) (hplaces : ∀ j, b₁.placeOf j = b.placeOf j)
    (herrands : b₁.errands = b.errands) (hsession : b₁.session = b.session)
    (hidle : ∀ j q, b.placeOf j = some q → ¬ q.waits)
    (hd : Driven T o i b₁ (b.session.conn.begin o op).1 (b.session.conn.begin o op).2 b') :
    Serving T o v qs first (given ++ (b.numbered o (.poll i)).toList) b' ∧
      Nears v.lag i b b' := by
  have hbegin := begin_of_open hb.state hop (hq i)
  obtain ⟨hnew, hbound⟩ := room_of_unstarted hb hroom hp hleft
  have hnumbered : b.numbered o (.poll i) = some (i, some (b.session.conn.lastId + 1)) := by
    rw [numbered, starter, hstarts]
    simp only [Option.map_some, startEntry, hbegin]
    rfl
  have hlands := lands_of_driven hd
  rw [hbegin] at hd
  have hnow : b₁.session.now = b.session.now := by rw [hsession]
  rw [hnumbered, Option.toList_some]
  have hgiven : (i, some (b.session.conn.lastId + 1)) ∈
      given ++ [(i, some (b.session.conn.lastId + 1))] :=
    List.mem_append_right _ (List.mem_singleton_self _)
  have hcarried := carried_of_write hv hheld (hq i) (by exact hb.state) rfl hgiven hlag
    (hnow ▸ hclock) (hsession ▸ hb.quiet hidle) hbound hd
  rw [hnow] at hcarried
  constructor
  · refine serving_of_carried hb hheld hplaces herrands hnow hlands hcarried (Nat.le_refl 2)
      (counts_append hb.counts hnew) (List.subset_append_left _ _) fun j hj => ?_
    rw [List.map_append] at hj
    rcases List.mem_append.mp hj with hj | hj
    · exact .inr hj
    · exact .inl (List.mem_singleton.mp hj)
  · obtain ⟨p', hp', _, hle, hwake⟩ := hcarried.place
    exact .nearer hp hp' (Nat.lt_of_le_of_lt hle hleft)
      (fun j hj => (placeOf_of_lands hlands hj).trans (hplaces j))
      ((now_of_lands hlands).trans hnow) ((errands_of_lands hlands).trans herrands) hwake

/-- A poll at which no operation starts gives no id. -/
theorem numbered_of_unstarted (h : b.starts i = none) : b.numbered o (.poll i) = none := by
  rw [numbered, starter, h]
  rfl

/-- A poll at which the operation of a waiting branch goes on. -/
theorem serving_of_resumed {w : σ} {c : Connection} {q : Progress} {p : Place σ} {id k : Nat}
    (hb : Serving T o v qs first given b) (hp : b.placeOf i = some p) (hwaits : p.waits)
    (hd : Driven T o i (b.setWire w) c q b') (hid : id = b.session.conn.lastId)
    (hc : Carried T o v given (qs i) i id k b.session.now b') (hk : k < p.left) (hle : k ≤ 2) :
    Serving T o v qs first (given ++ (b.numbered o (.poll i)).toList) b' ∧
      Nears v.lag i b b' := by
  have hlands := lands_of_driven hd
  have hheld : Held (b.setWire w) i := held_setWire (held_of_sane hb.sane (hb.sane.waits i p hp hwaits)) w
  rw [numbered_of_unstarted (starts_of_waits hp hwaits), Option.toList_none, List.append_nil]
  constructor
  · exact serving_of_carried hb hheld (fun _ => rfl) rfl rfl hlands hc hle (hid ▸ hb.counts)
      (List.Subset.refl _) fun _ hj => .inr hj
  · obtain ⟨p', hp', _, hleft, hwake⟩ := hc.place
    exact .nearer hp hp' (Nat.lt_of_le_of_lt hleft hk)
      (fun j hj => (placeOf_of_lands hlands hj).trans (by rfl))
      ((now_of_lands hlands).trans (by rfl)) ((errands_of_lands hlands).trans (by rfl)) hwake

/-- A branch gets in line. -/
theorem serving_of_linesUp {op : Operation} {u : Instant}
    (hb : Serving T o v qs first given b) (hp : b.placeOf i = some (.pausing u))
    (hop : op.asks o = some (qs i)) (hheld : b.holder ≠ none) :
    Serving T o v qs first given ({ b with line := b.line ++ [i] }.setPlace i (.queued op)) ∧
      Nears v.lag i b ({ b with line := b.line ++ [i] }.setPlace i (.queued op)) := by
  have hself : ({ b with line := b.line ++ [i] }.setPlace i (.queued op)).placeOf i
      = some (.queued op) := placeOf_setPlace_self _ (by
    show (b.placeOf i).isSome
    rw [hp]
    rfl)
  have hothers : ∀ j, j ≠ i →
      ({ b with line := b.line ++ [i] }.setPlace i (.queued op)).placeOf j = b.placeOf j :=
    fun j hj => placeOf_setPlace_ne _ hj
  have herrands : ({ b with line := b.line ++ [i] }.setPlace i (.queued op)).errands = b.errands :=
    errands_setPlace { b with line := b.line ++ [i] } i _
  constructor
  · refine ⟨sane_of_lines_up op hb.sane hp ⟨id, id⟩ hheld, hb.state, hb.counts, ?_, ?_, ?_, ?_⟩
    · intro j hj
      obtain ⟨q, hq, hle⟩ := hb.started j hj
      have hji : j ≠ i := by
        rintro rfl
        cases hp.symm.trans hq
        exact absurd hle (by decide : ¬ 4 ≤ 2)
      exact ⟨q, (hothers j hji).trans hq, hle⟩
    · rw [herrands]
      exact hb.errands
    · intro j q hq
      by_cases hji : j = i
      · subst hji
        cases hself.symm.trans hq
        exact hop
      · exact hb.fits j q ((hothers j hji).symm.trans hq)
    · intro hidle
      refine hb.quiet fun j q hq => ?_
      by_cases hji : j = i
      · subst hji
        cases hp.symm.trans hq
        exact id
      · exact hidle j q ((hothers j hji).trans hq)
  · exact .nearer hp hself (by decide : 3 < 4) hothers rfl herrands nofun

/-- Nobody finds the connection held who would be refused. -/
theorem free_of_lenient (hb : Serving T o v qs first given b)
    (hlenient : Lenient o b.errands.length) {op : Operation} (hasks : b.asks i = some op)
    (hreject : o.policy = .reject) : b.holder = none := by
  rcases hlenient with hqueue | hone
  · exact nomatch hqueue.symm.trans hreject
  · obtain ⟨u, hp⟩ := pausing_of_asks hasks
    have hthere : ∀ {j p}, b.placeOf j = some p → j = 0 := by
      intro j p hj
      have hlt : j < b.errands.length := placeOf_isSome_iff.mp (by rw [hj]; rfl)
      omega
    refine free_of_only hb.sane (fun j p hj => ?_) hp ⟨id, id⟩
    rw [hthere hj, hthere hp]

/-- A poll keeps what the branches are promised, and brings the branch nearer to its end if it
does anything. -/
theorem serving_of_goes (hv : Prompt T v) (hlag : v.lag < o.requestTimeout)
    (hlenient : Lenient o b.errands.length) (hq : ∀ i, (qs i).purpose ≠ .opening)
    (hroom : first + b.errands.length ≤ v.bound)
    (hclock : b.session.now + o.requestTimeout < clockEnd)
    (hb : Serving T o v qs first given b) (h : Goes T o i b b') :
    Serving T o v qs first (given ++ (b.numbered o (.poll i)).toList) b' ∧
      Nears v.lag i b b' := by
  have hbegun : ∀ {u : Instant}, b.placeOf i = some (.pausing u) → b.begun i = b := by
    intro u hp
    obtain ⟨op, he, _⟩ := errand_of_place hb hp
    exact begun_of_unlimited he
  cases h with
  | still hnot =>
      have hstarts : b.starts i = none := starts_of_not_ready hnot
      rw [numbered_of_unstarted hstarts, Option.toList_none, List.append_nil]
      exact ⟨hb, .still hnot⟩
  | rests hp hwake hnone =>
      obtain ⟨op, hasks⟩ := asks_of_pausing hb hp hwake
      exact nomatch hnone.symm.trans hasks
  | rested hp => exact (hb.fits i _ hp).elim
  | refused hasks hheld _ hreject => exact absurd (free_of_lenient hb hlenient hasks hreject) hheld
  | linesUp hasks hheld =>
      obtain ⟨u, hp⟩ := pausing_of_asks hasks
      have hstarts : b.starts i = none := starts_of_busy hasks hheld
      rw [numbered_of_unstarted hstarts, Option.toList_none, List.append_nil, hbegun hp]
      exact serving_of_linesUp hb hp (inquiry_of_asks hb hasks) hheld
  | enters hasks hfree hd =>
      obtain ⟨u, hp⟩ := pausing_of_asks hasks
      have hheld := held_of_begun hb.sane hasks hfree
      rw [hbegun hp] at hd hheld
      refine serving_of_start hv hlag hq hroom hclock hb ((starts_of_free hfree).trans hasks)
        (inquiry_of_asks hb hasks) hp (by decide : 2 < 4) hheld (fun _ => rfl) rfl rfl ?_ hd
      exact fun j q hj hwaits => nomatch hfree.symm.trans (hb.sane.waits j q hj hwaits)
  | handed hp hi hd =>
      refine serving_of_start hv hlag hq hroom hclock hb (starts_of_handed hi hp)
        (hb.fits i _ hp) hp (by decide : 2 < 3) (held_of_sane hb.sane hi) (fun _ => rfl) rfl rfl
        ?_ hd
      intro j q hj hwaits
      cases hi.symm.trans (hb.sane.waits j q hj hwaits)
      cases hp.symm.trans hj
      exact hwaits
  | @wrote _ st _ hp hends hd =>
      obtain ⟨rfl, hok, ends, r, hs, hid, hgiven, hreplies, hanswers⟩ := hb.fits i _ hp
      have hheld := held_setWire (held_of_sane hb.sane (hb.sane.waits i _ hp trivial)) st.after
      rw [hok, ← hid] at hd
      rw [hs, Option.any_some, decide_eq_true_eq] at hends
      have hcarried := carried_of_await hheld (hq i) hb.state hid.symm hgiven hreplies hlag hclock
        hanswers hends hd
      exact serving_of_resumed hb hp trivial hd hid hcarried (by decide : 1 < 2) (by decide)
  | @read purpose w _ hp hends hd =>
      obtain ⟨rfl, r, hverdict, hid, hgiven, hreplies, hquiet⟩ := hb.fits i _ hp
      have hheld := held_setWire (held_of_sane hb.sane (hb.sane.waits i _ hp trivial))
        (T.take b.session.now w.taken b.session.wire)
      rw [hverdict] at hd
      have hcarried := carried_of_answer hheld (hq i) hb.state hid.symm hgiven hreplies
        (hquiet _ hends) rfl hd
      exact serving_of_resumed hb hp trivial hd hid hcarried (by decide : 0 < 1) (by decide)
  | stopped hp => exact (hb.fits i _ hp).elim

theorem errands_of_nears {lag : Duration} (h : Nears lag i b b') : b'.errands = b.errands := by
  cases h with
  | still => rfl
  | nearer _ _ _ _ _ herrands => exact herrands

theorem now_of_nears {lag : Duration} (h : Nears lag i b b') :
    b'.session.now = b.session.now := by
  cases h with
  | still => rfl
  | nearer _ _ _ _ hnow => exact hnow

theorem served_concat (b : Board σ) (ms : List Move) (m : Move) :
    b.served T o (ms ++ [m]) = b.served T o ms ++ ((b.moves T o ms).numbered o m).toList := by
  rw [served, along_append, along_cons, along_nil, List.append_nil]
  rfl

/-- A branch without a limit is not dropped when it is polled. -/
theorem goes_of_poll (hnever : ∀ b', Goes T o i b b' → ∀ e, b'.errands[i]? = some e → e.2.2 = none) :
    Goes T o i b (b.move T o (.poll i)) := by
  show Goes T o i b (poll T o b i)
  simp only [poll]
  cases hi : b.tasks[i]? with
  | none =>
      have hp : b.placeOf i = none := by rw [placeOf, hi, Option.map_none]
      refine .still ?_
      rintro ⟨p, hp', _⟩
      cases hp.symm.trans hp'
  | some t =>
      have hgoes := goOn_goes T o hi
      dsimp only
      cases hi' : (goOn T o i t b).tasks[i]? with
      | none => exact hgoes
      | some t' =>
          have he : (goOn T o i t b).errands[i]? = some (t'.work, t'.limit, t'.dropAt) := by
            rw [errands, List.getElem?_map, hi']
            rfl
          have hnone : t'.dropAt = none := hnever _ hgoes _ he
          dsimp only
          rw [hnone, if_neg (by simp)]
          exact hgoes

theorem serving_of_poll (hv : Prompt T v) (hlag : v.lag < o.requestTimeout)
    (hlenient : Lenient o b.errands.length) (hq : ∀ i, (qs i).purpose ≠ .opening)
    (hroom : first + b.errands.length ≤ v.bound)
    (hclock : b.session.now + o.requestTimeout < clockEnd)
    (hb : Serving T o v qs first given b) (i : Nat) :
    Goes T o i b (b.move T o (.poll i)) ∧
      Serving T o v qs first (given ++ (b.numbered o (.poll i)).toList) (b.move T o (.poll i)) ∧
      Nears v.lag i b (b.move T o (.poll i)) := by
  have hserves : ∀ b', Goes T o i b b' →
      Serving T o v qs first (given ++ (b.numbered o (.poll i)).toList) b' ∧ Nears v.lag i b b' :=
    fun _ h => serving_of_goes hv hlag hlenient hq hroom hclock hb h
  have hgoes : Goes T o i b (b.move T o (.poll i)) := goes_of_poll fun b' h e he => by
    obtain ⟨op, rfl, _⟩ := (hserves b' h).1.errands i e he
    rfl
  exact ⟨hgoes, hserves _ hgoes⟩

/-- Time passes. -/
theorem serving_of_clock (hv : Prompt T v) (hb : Serving T o v qs first given b) {now : Instant}
    (hnow : b.session.now ≤ now) : Serving T o v qs first given (b.setNow now) where
  sane := sane_congr (b := b) rfl rfl (fun _ => rfl) hb.sane
  state := hb.state
  counts := hb.counts
  started := hb.started
  errands := hb.errands
  fits := fun i p hp => by
    have hfits := hb.fits i p hp
    cases p with
    | writing | reading | stopping | pausing | resting | queued | ended => exact hfits
  quiet := fun hidle => hv.later _ _ _ _ (hb.quiet hidle) hnow

/-! ## Schedules -/

/-- These moves drop nobody, and the clock does not run backwards, nor up to its end. -/
def Board.Steady (T : Transport σ) (o : ClientOptions) : Board σ → List Move → Prop
  | _, [] => True
  | b, .poll i :: ms => (b.move T o (.poll i)).Steady T o ms
  | _, .drop _ :: _ => False
  | b, .clock now :: ms => b.session.now ≤ now ∧ now + o.requestTimeout < clockEnd ∧
      (b.setNow now).Steady T o ms

/-- Under every schedule that drops nobody, the branches are served. -/
theorem serving_of_moves (hv : Prompt T v) (hlag : v.lag < o.requestTimeout)
    (hq : ∀ i, (qs i).purpose ≠ .opening) (ms : List Move) :
    ∀ {given : List (Nat × Option Nat)} {b : Board σ}, Lenient o b.errands.length →
      first + b.errands.length ≤ v.bound → b.session.now + o.requestTimeout < clockEnd →
      b.Steady T o ms → Serving T o v qs first given b →
      Serving T o v qs first (given ++ b.served T o ms) (b.moves T o ms) := by
  induction ms with
  | nil =>
      intro given b _ _ _ _ hb
      rw [served, along_nil, List.append_nil]
      exact hb
  | cons m ms ih =>
      intro given b hlenient hroom hclock hsteady hb
      cases m with
      | drop => exact hsteady.elim
      | clock now =>
          obtain ⟨hle, hlt, hsteady⟩ := hsteady
          exact ih (b := b.setNow now) hlenient hroom hlt hsteady (serving_of_clock hv hb hle)
      | poll i =>
          obtain ⟨_, hb', hnears⟩ := serving_of_poll hv hlag hlenient hq hroom hclock hb i
          rw [served, along_cons, ← List.append_assoc]
          rw [← errands_of_nears hnears] at hlenient hroom
          refine ih hlenient hroom ?_ hsteady hb'
          rw [now_of_nears hnears]
          exact hclock

/-- Branches that make inquiries on an open session with a quiet server, before anything has
happened. -/
theorem serving_start {s : Session σ} {branches : List Branch} (hstate : s.conn.state = .ready)
    (hquiet : v.quiet s.conn.lastId s.now s.wire)
    (hbranches : ∀ i br, branches[i]? = some br → br.limit = none ∧
      ∃ op, br.work = .use op ∧ op.asks o = some (qs i)) :
    Serving T o v qs s.conn.lastId [] (Board.start s branches) where
  sane := sane_start s branches
  state := hstate
  counts := ⟨rfl, rfl, List.nodup_nil⟩
  started := nofun
  errands := by
    intro i e he
    simp only [Board.errands, Board.start, List.map_map, List.getElem?_map] at he
    obtain ⟨br, hbr, rfl⟩ := Option.map_eq_some_iff.mp he
    obtain ⟨hlimit, op, hwork, hop⟩ := hbranches i br hbr
    exact ⟨op, by simp [hwork, hlimit], hop⟩
  fits := by
    intro i p hp
    obtain ⟨wakes, rfl⟩ := placeOf_start hp
    trivial
  quiet := fun _ => hquiet

end Serving

end Conformance
