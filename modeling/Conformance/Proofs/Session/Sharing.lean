/-
Conformance — callers that share a connection.

What the last modules prove of branches under every schedule, put together.  A
branch does one operation; a caller that does several is several branches, each
polled first when the one before it has ended.

The server that counts (`counting`) is one with which all of it happens: it reads
every line in a tick, and answers the n-th with id n after one more.
-/
import Conformance.Proofs.Session.Completion

namespace Conformance

open Client Connection Board

variable {σ : Type}

/-- The inquiry for the tools. -/
def toolsInquiry : Inquiry :=
  { purpose := .listing, method := Wire.listMethod, params := some (.obj []) }

/-- Its answer, if it names the tools, gives them. -/
theorem gives_of_tools {r : Wire.Response} {ts : List Wire.Tool} (h : toolsOf r = .ok ts) :
    toolsInquiry.gives r = .ok (.tools ts) := by
  rw [Inquiry.gives, toolsInquiry, h]
  rfl

/-! ## A server that counts -/

/-- How many lines the server has been given, and when the answer to the last of them comes. -/
structure Counter where
  lines : Nat
  due : Option Instant := none

namespace Counter

/-- The answer with an id: there are no tools. -/
def answer (id : Nat) : Wire.Response := { id, result := some (.obj [("tools", .arr [])]) }

def answerLine (id : Nat) : String :=
  (Json.obj [("id", .nat id), ("result", .obj [("tools", .arr [])])]).print

/-- The server as a transport. -/
def transport : Transport Counter where
  write now _ w :=
    { ends := some (now + 1)
      after := { lines := w.lines + 1, due := some (now + 2) }
      result := .ok ()
      dropped := fun _ => w }
  arrivals _ w :=
    match w.due with
    | none => []
    | some t => [⟨t, .ok (.line "")⟩, ⟨t, .ok (.line (answerLine w.lines))⟩]
  take _ n w := if 2 ≤ n then { w with due := none } else w
  connected _ w := (w, true)
  stop now _ w := { ends := now, after := w, result := .ok (), dropped := w }
  stderr _ _ := []

/-- What is known of it.  Only the first lines of its answers are read here. -/
def service : Service Counter where
  quiet id _ w := w = { lines := id }
  replies _ r := r = answer r.id
  lag := 1
  bound := 4

theorem responseOf_answerLine {id : Nat} (h : id ≤ 4) :
    responseOf (.ok (.line (answerLine id))) = some (answer id) := by
  have hall : ∀ id : Fin 5, responseOf (.ok (.line (answerLine id))) = some (answer id) := by
    intro id
    match id with
    | 0 | 1 | 2 | 3 | 4 => rfl
  exact hall ⟨id, Nat.lt_succ_of_le h⟩

theorem prompt : Prompt transport service where
  later _ _ _ _ h _ := h
  looks _ _ _ h := h
  answers := by
    rintro n t _ q rfl hn _
    refine ⟨t + 1, answer (n + 1), rfl, Nat.le_refl _, rfl, rfl, rfl, ?_⟩
    intro now hnow
    refine ⟨[⟨t + 2, .ok (.line "")⟩], ⟨t + 2, .ok (.line (answerLine (n + 1)))⟩, [], rfl, ?_,
      responseOf_answerLine hn, rfl, Nat.succ_le_succ hnow, fun _ _ => rfl⟩
    rintro x hx
    cases List.mem_singleton.mp hx
    exact ⟨.blank (by decide), Nat.le_refl _⟩

end Counter

/-! ## Callers -/

section Callers

variable {T : Transport σ} {o : ClientOptions} {P : List (String × Bool) → σ → Prop}
variable {s : Session σ} {h : History}

/-- Listings side by side, with pauses before them and no limits. -/
def Listings (branches : List Branch) : Prop :=
  ∀ br ∈ branches, br.limit = none ∧ br.work = .use .listTools

theorem listings_ask {branches : List Branch} (hb : Listings branches) (o : ClientOptions) :
    ∀ (i : Nat) (br : Branch), branches[i]? = some br → br.limit = none ∧
      ∃ op, br.work = .use op ∧ op.asks o = some toolsInquiry := by
  intro i br hbr
  obtain ⟨hlimit, hwork⟩ := hb br (List.mem_of_getElem? hbr)
  exact ⟨hlimit, .listTools, hwork, rfl⟩

/-- Callers of one connection, whatever the transport does and however they are scheduled and
dropped (`ms`).  `h` is the run behind the session on which they start.

While the operation of a caller waits, from the write of its request to its end, what others do
leaves the connection and the transport alone.  Callers are served in the order in which they
asked for the connection, each once; who asked and has not been served is in line, or was dropped,
or was refused, which only happens where the policy is to refuse.  The ids on the wire are those
given in the order of service, and rise.  Who is refused leaves everything as it is.

Listings on an open session with a prompt server that names its tools all succeed, each with the
answer to its own request: under every schedule that drops none of them those that have ended
have, and under the schedule that runs all of them end. -/
theorem shared_connection (hk : Keeps T P) (hf : Follows o P s h) (branches : List Branch)
    (ms : List Move) :
    let start := Board.start s branches
    let b := start.moves T o ms
    (∀ j p, b.placeOf j = some p → p.waits → ∀ ms', (∀ m ∈ ms', m.branch ≠ some j) →
      (b.moves T o ms').session.conn = b.session.conn ∧
        (b.moves T o ms').session.wire = b.session.wire ∧
        (b.moves T o ms').placeOf j = some p) ∧
    ((start.asked T o ms).Nodup ∧
      ((start.served T o ms).map (·.1) ++ b.due).Sublist (start.asked T o ms) ∧
      ∀ i ∈ start.asked T o ms, i ∈ (start.served T o ms).map (·.1) ∨ i ∈ b.due ∨
        b.placeOf i = some (.ended .cancelled) ∨ Refused o b i) ∧
    (∃ later, Tracks o P b (later ++ h) ∧
      History.ids (later ++ h) = h.ids ++ (start.served T o ms).filterMap (·.2) ∧
      (History.ids (later ++ h)).Pairwise (· < ·)) ∧
    (o.policy = .reject → ∀ i op, b.asks i = some op → b.holder ≠ none → op.heedsPolicy = true →
      b.move T o (.poll i) = (b.begun i).setPlace i (.ended (.returned (.error .busy))) ∧
        (b.move T o (.poll i)).session = b.session) ∧
    ∀ v : Service σ, Prompt T v → v.lag < o.requestTimeout → o.policy = .queue →
      s.conn.state = .ready → v.quiet s.conn.lastId s.now s.wire →
      s.conn.lastId + branches.length ≤ v.bound → Listings branches →
      (∀ r, v.replies toolsInquiry r → ∃ ts, toolsOf r = .ok ts) →
      (s.now + o.requestTimeout < clockEnd → start.Steady T o ms →
        ∀ i e, b.placeOf i = some (.ended e) →
          ∃ r ts, (i, some r.id) ∈ start.served T o ms ∧ v.replies toolsInquiry r ∧
            toolsOf r = .ok ts ∧ e = .returned (.ok (.tools ts))) ∧
      ∀ latest, (∀ br ∈ branches, br.pause ≤ latest) →
        s.now + latest + v.lag * (4 * branches.length) + o.requestTimeout < clockEnd →
        ∃ ms endings, gather T o .all none branches s = ((start.moves T o ms).session, some endings) ∧
          endings.length = branches.length ∧
          ∀ i, i < branches.length → ∃ r ts, (i, some r.id) ∈ start.served T o ms ∧
            v.replies toolsInquiry r ∧ toolsOf r = .ok ts ∧
            endings[i]? = some (.returned (.ok (.tools ts))) := by
  intro start b
  have hsane : Sane start := sane_start s branches
  have hb : Sane b := sane_of_moves hsane ms
  have hdue : start.due = [] := due_of_free hsane rfl
  refine ⟨?_, ⟨(nodup_asked ms hsane).1, ?_, ?_⟩, ?_, ?_, ?_⟩
  · intro j p hp hwaits ms' hms'
    have hw := waiting_of_moves (T := T) (o := o) hwaits hms' ⟨hb, rfl, rfl, hp⟩
    exact ⟨hw.conn, hw.wire, hw.place⟩
  · have horder := order_of_moves (T := T) (o := o) ms hsane
    rw [hdue, List.nil_append] at horder
    exact horder
  · intro i hi
    exact fate_of_moves ms hsane (List.mem_append_right _ hi)
  · obtain ⟨later, htracks, hids, _⟩ := ids_of_moves hk hsane (tracks_start hf branches) ms
    exact ⟨later, htracks, hids, (numbers_of_run htracks.run).rise⟩
  · intro hreject i op hasks hheld hheeds
    have hmove := poll_of_refused (T := T) hb hasks hheld hheeds hreject
    exact ⟨hmove, by rw [hmove]; rfl⟩
  · intro v hv hlag hqueue hstate hquiet hroom hlistings hnames
    have hbranches := listings_ask hlistings o
    have hpurpose : ∀ _ : Nat, toolsInquiry.purpose ≠ .opening := fun _ => nofun
    constructor
    · intro hclock hsteady i e he
      have hserving := serving_of_moves hv hlag hpurpose ms (.inl hqueue)
        (by rw [errands_start]; exact hroom) hclock hsteady (serving_start hstate hquiet hbranches)
      obtain ⟨r, hr, hreplies, rfl⟩ := answer_of_ended hserving he
      obtain ⟨ts, hts⟩ := hnames r hreplies
      exact ⟨r, ts, hr, hreplies, hts, by rw [gives_of_tools hts]⟩
    · intro latest hlatest hclock
      obtain ⟨b', hb', hall, hgather⟩ := underway_of_gather hv hlag (.inl hqueue) hpurpose hstate hquiet
        hroom hbranches hlatest hclock
      obtain ⟨ms', rfl, hserving⟩ := hb'.reached
      have hlength : (start.moves T o ms').errands.length = branches.length := by
        rw [hb'.errands, errands_start]
      refine ⟨ms', _, hgather, ?_, fun i hi => ?_⟩
      · rw [List.length_map, ← hlength, Board.errands, List.length_map]
      · obtain ⟨e, he, hending⟩ := ended_of_all hall (i := i) (by rw [hlength]; exact hi)
        obtain ⟨r, hr, hreplies, rfl⟩ := answer_of_ended hserving he
        obtain ⟨ts, hts⟩ := hnames r hreplies
        exact ⟨r, ts, hr, hreplies, hts, by rw [hending, gives_of_tools hts]⟩

/-- A session opened with the counting server. -/
def countedSession : Session Counter where
  conn := { lastId := 1, state := .ready, server := some {} }
  wire := { lines := 1 }

theorem follows_countedSession (o : ClientOptions) :
    ∃ h, Follows o (fun _ _ => True) countedSession h := by
  refine ⟨History.play o [.start .connect, .written (.ok ()),
    .heard (.ok (.line "\x7b\"id\":1,\"result\":\x7b\x7d\x7d")), .written (.ok ())],
    run_play _ _, ?_, trivial⟩
  rfl

/-- Three listings side by side, the last a little later, get what the server answers to each of
them; where the policy is to refuse, the second is refused while the first is being written. -/
theorem shared_connection_of_three :
    let listing : Branch := { work := .use .listTools }
    let branches := [listing, listing, { listing with pause := 1 }]
    (∃ ms endings, gather Counter.transport {} .all none branches countedSession
        = (((Board.start countedSession branches).moves Counter.transport {} ms).session,
            some endings) ∧
      endings.length = 3 ∧
      ∀ i, i < 3 → ∃ r ts, (i, some r.id) ∈ (Board.start countedSession branches).served
          Counter.transport {} ms ∧ r = Counter.answer r.id ∧ toolsOf r = .ok ts ∧
        endings[i]? = some (.returned (.ok (.tools ts)))) ∧
    let o : ClientOptions := { policy := .reject }
    let b := (Board.start countedSession branches).moves Counter.transport o [.poll 0]
    (b.move Counter.transport o (.poll 1)).session = b.session ∧
      (b.move Counter.transport o (.poll 1)).placeOf 1
        = some (.ended (.returned (.error .busy))) := by
  intro listing branches
  constructor
  · obtain ⟨h, hf⟩ := follows_countedSession {}
    obtain ⟨_, _, _, _, hserves⟩ :=
      shared_connection (keeps_nothing Counter.transport) hf branches []
    exact (hserves Counter.service Counter.prompt (by decide) rfl rfl rfl (by decide)
      (by simp [Listings, branches, listing]) (fun r hr => ⟨[], by rw [hr]; rfl⟩)).2 1
      (by simp [branches, listing]) (by decide)
  · intro o b
    obtain ⟨h, hf⟩ := follows_countedSession o
    obtain ⟨_, _, _, hrefuses, _⟩ :=
      shared_connection (keeps_nothing Counter.transport) hf branches [.poll 0]
    obtain ⟨hmove, hsession⟩ := hrefuses rfl 1 .listTools rfl nofun rfl
    refine ⟨hsession, ?_⟩
    rw [hmove]
    rfl

end Callers

end Conformance
