/-
Conformance — the tests at a server that attends to the client.

What a program does at such a server has a price: it makes so many requests, all of them are
answered, and it returns what it promises when so many answers have come, unless a deadline drops it
before that (`Program.Served`).  Prices add up along a check (`served_bind`, `served_forEach`), so
that of a test is read off its body.  No test of the three suites that only list and call costs more
than nine requests (`Suite.Served`).
-/
import Conformance.Proofs.Demo.Answers
import Conformance.Suite.BattlePrep
import Conformance.Suite.EdgeCases

namespace Conformance

open Board DemoServer

/-! ## Programs in parts -/

namespace Program

variable {σ α β : Type} {T : Transport σ} {o : ClientOptions} {deadline : Option Instant}

/-- A program goes on where its first part returned. -/
theorem run_bind (f : α → Program β) (p : Program α) : ∀ s : Session σ,
    (p.bind f).run T o deadline s =
      match p.run T o deadline s with
      | (s', .done a) => (f a).run T o deadline s'
      | (s', .crashed m) => (s', .crashed m)
      | (s', .dropped) => (s', .dropped) := by
  induction p with
  | done a => exact fun s => rfl
  | crash m => exact fun s => rfl
  | sleep d next ih =>
      intro s
      simp only [bind, run]
      cases deadline with
      | none => exact ih _
      | some t =>
          dsimp only
          split
          · rfl
          · exact ih _
  | clock next ih => exact fun s => ih s.now s
  | gather mode branches next ih =>
      intro s
      simp only [bind, run]
      generalize Conformance.gather T o mode deadline branches s = gathered
      obtain ⟨s', endings⟩ := gathered
      cases endings with
      | none => rfl
      | some endings =>
          dsimp only
          cases crashIn endings with
          | some m => rfl
          | none => exact ih endings s'

theorem errors_bind (f : α → Program β) (p : Program α) : ∀ s : Session σ,
    (p.bind f).errors T o deadline s = p.errors T o deadline s ++
      match p.run T o deadline s with
      | (s', .done a) => (f a).errors T o deadline s'
      | _ => [] := by
  induction p with
  | done a => exact fun s => rfl
  | crash m => exact fun s => rfl
  | sleep d next ih =>
      intro s
      cases deadline with
      | none => exact ih _
      | some t =>
          simp only [bind, errors, rounds, run, Option.any_some, decide_eq_true_eq]
          split
          · rfl
          · exact ih _
  | clock next ih => exact fun s => ih s.now s
  | gather mode branches next ih =>
      intro s
      simp only [bind, errors, rounds, run, List.flatMap_cons, List.append_assoc]
      generalize Conformance.gather T o mode deadline branches s = gathered
      obtain ⟨s', endings⟩ := gathered
      cases endings with
      | none => rfl
      | some endings =>
          dsimp only
          cases crashIn endings with
          | some m => rfl
          | none => exact congrArg (_ ++ ·) (ih endings s')

/-! ## Prices -/

/-- The client can make `n` requests at the server: their ids are words, and the clock can tell
their waits. -/
structure Ready (o : ClientOptions) (lag : Duration) (n : Nat) (deadline : Option Instant)
    (s : Session Hosted) : Prop where
  orderly : Orderly lag s
  ids : s.conn.lastId + n < Word.bound
  clock : s.now + n * lag + o.requestTimeout < clockEnd
  ahead : ∀ d, deadline = some d → s.now ≤ d

/-- What is left by `n` requests that were answered, or dropped at a deadline before the last answer
had to come. -/
structure Fares (least lag : Duration) (n : Nat) (deadline : Option Instant) (post : α → Prop)
    (s s' : Session Hosted) (e : End α) : Prop where
  orderly : Orderly lag s'
  ids : s'.conn.lastId ≤ s.conn.lastId + n
  now : s'.now ≤ s.now + n * lag
  ending : (∃ a, e = .done a ∧ post a ∧ s.now + n * least ≤ s'.now) ∨
    e = .dropped ∧ ∃ d, deadline = some d ∧ d < s.now + n * lag

/-- The program makes `n` requests, all of them are answered, and `post` holds of what it returns. -/
def Served (site : Site) (o : ClientOptions) (least lag : Duration) (n : Nat) (p : Program α)
    (post : α → Prop) : Prop :=
  ∀ deadline s, Ready o lag n deadline s →
    p.errors (hosted site) o deadline s = [] ∧
      Fares least lag n deadline post s (p.run (hosted site) o deadline s).1
        (p.run (hosted site) o deadline s).2

section Served

variable {site : Site} {least lag : Duration} {n m : Nat} {s s' : Session Hosted}
variable {p : Program α} {f : α → Program β} {P Q : α → Prop} {R : β → Prop}

theorem Ready.of_le (h : Ready o lag m deadline s) (hle : n ≤ m) : Ready o lag n deadline s where
  orderly := h.orderly
  ids := Nat.lt_of_le_of_lt (Nat.add_le_add_left hle _) h.ids
  clock := Nat.lt_of_le_of_lt (Nat.add_le_add_right
    (Nat.add_le_add_left (Nat.mul_le_mul_right lag hle) _) _) h.clock
  ahead := h.ahead

/-- Two stretches of time, one after the other. -/
theorem le_of_parts {start mid : Nat} (h : mid ≤ start + n * lag) :
    mid + m * lag ≤ start + (n + m) * lag := by
  rw [Nat.add_mul]
  omega

theorem ge_of_parts {start mid : Nat} (h : start + n * least ≤ mid) :
    start + (n + m) * least ≤ mid + m * least := by
  rw [Nat.add_mul]
  omega

/-- What `n` requests have left is ready for `m` more. -/
theorem Ready.next {e : End α} (h : Ready o lag (n + m) deadline s)
    (hfares : Fares least lag n deadline P s s' e) (hahead : ∀ d, deadline = some d → s'.now ≤ d) :
    Ready o lag m deadline s' where
  orderly := hfares.orderly
  ids := by
    have hids := h.ids
    have hfirst := hfares.ids
    omega
  clock := Nat.lt_of_le_of_lt (Nat.add_le_add_right (le_of_parts hfares.now) _) h.clock
  ahead := hahead

theorem served_imp (h : Served site o least lag n p P) (hpost : ∀ a, P a → Q a) :
    Served site o least lag n p Q := by
  intro deadline s hs
  obtain ⟨herrors, hfares⟩ := h deadline s hs
  exact ⟨herrors, hfares.orderly, hfares.ids, hfares.now,
    hfares.ending.imp_left fun ⟨a, he, ha, htime⟩ => ⟨a, he, hpost a ha, htime⟩⟩

theorem served_done {a : α} (ha : P a) : Served site o least lag 0 (.done a) P := by
  intro deadline s hs
  refine ⟨rfl, hs.orderly, Nat.le_refl _, Nat.le_add_right _ _, .inl ⟨a, rfl, ha, ?_⟩⟩
  rw [Nat.zero_mul]
  exact Nat.le_refl _

/-- The prices of two parts add up. -/
theorem served_of_bind (hp : Served site o least lag n p P)
    (hf : ∀ a, P a → Served site o least lag m (f a) R) :
    Served site o least lag (n + m) (p.bind f) R := by
  intro deadline s hs
  obtain ⟨herrors, hfirst⟩ := hp deadline s (hs.of_le (Nat.le_add_right n m))
  have hahead := (clock_of_program (T := hosted site) (o := o) deadline p s hs.ahead).2
  rw [errors_bind, run_bind, herrors]
  generalize p.run (hosted site) o deadline s = first at hfirst hahead
  obtain ⟨mid, e⟩ := first
  have htime : mid.now + m * lag ≤ s.now + (n + m) * lag := le_of_parts hfirst.now
  rcases hfirst.ending with ⟨a, he, ha, hleast⟩ | ⟨he, d, hd, hlate⟩
  · cases he
    obtain ⟨herrors', hrest⟩ := hf a ha deadline mid (hs.next hfirst hahead)
    refine ⟨herrors', hrest.orderly, ?_, Nat.le_trans hrest.now htime, ?_⟩
    · rw [← Nat.add_assoc]
      exact Nat.le_trans hrest.ids (Nat.add_le_add_right hfirst.ids m)
    · rcases hrest.ending with ⟨b, he, hb, hleast'⟩ | ⟨he, d, hd, hlate⟩
      · exact .inl ⟨b, he, hb, Nat.le_trans (ge_of_parts hleast) hleast'⟩
      · exact .inr ⟨he, d, hd, Nat.lt_of_lt_of_le hlate htime⟩
  · cases he
    have hdropped : s.now + n * lag ≤ s.now + (n + m) * lag :=
      Nat.add_le_add_left (Nat.mul_le_mul_right lag (Nat.le_add_right n m)) _
    exact ⟨rfl, hfirst.orderly, Nat.le_trans hfirst.ids (by omega),
      Nat.le_trans hfirst.now hdropped, .inr ⟨rfl, d, hd, Nat.lt_of_lt_of_le hlate hdropped⟩⟩

end Served

end Program

/-! ## Checks -/

namespace Check

variable {α β : Type} {site : Site} {o : ClientOptions} {least lag : Duration} {n m : Nat}
variable {c : Check α} {f : α → Check β} {P Q : α → Prop} {R : β → Prop}

/-- The check makes `n` requests, all of them are answered, and it does not fail: `post` holds of
what it returns. -/
def Served (site : Site) (o : ClientOptions) (least lag : Duration) (n : Nat) (c : Check α)
    (post : α → Prop) : Prop :=
  Program.Served site o least lag n c.run fun r => ∃ a, r = .ok a ∧ post a

theorem served_imp (h : Served site o least lag n c P) (hpost : ∀ a, P a → Q a) :
    Served site o least lag n c Q :=
  Program.served_imp h fun _ ⟨a, hr, ha⟩ => ⟨a, hr, hpost a ha⟩

theorem served_pure {a : α} (ha : P a) : Served site o least lag 0 (pure a) P :=
  Program.served_done ⟨a, rfl, ha⟩

theorem served_bind (hc : Served site o least lag n c P) (hf : ∀ a, P a → Served site o least lag m (f a) R) :
    Served site o least lag (n + m) (c >>= f) R := by
  refine Program.served_of_bind hc ?_
  rintro r ⟨a, rfl, ha⟩
  exact hf a ha

/-- What comes behind the requests costs nothing. -/
theorem served_bind_zero (hc : Served site o least lag n c P)
    (hf : ∀ a, P a → Served site o least lag 0 (f a) R) : Served site o least lag n (c >>= f) R :=
  served_bind hc hf

theorem served_ensure {b : Bool} (hb : b = true) (message : String) :
    Served site o least lag 0 (ensure b message) fun _ => True := by
  rw [ensure, if_pos hb]
  exact served_pure trivial

theorem served_within (description : String) (hc : Served site o least lag n c P) :
    Served site o least lag n (c.within description) P := by
  refine Program.served_of_bind (m := 0) hc ?_
  rintro r ⟨a, rfl, ha⟩
  exact Program.served_done ⟨a, rfl, ha⟩

theorem served_forEach {ι : Type} {f : ι → Check Unit} : ∀ xs : List ι,
    (∀ x ∈ xs, Served site o least lag n (f x) fun _ => True) →
      Served site o least lag (xs.length * n) (Suite.forEach xs f) fun _ => True
  | [], _ => by
      rw [List.length_nil, Nat.zero_mul]
      exact served_pure trivial
  | x :: rest, h => by
      rw [List.length_cons, Nat.succ_mul, Nat.add_comm]
      exact served_bind (h x List.mem_cons_self) fun _ _ =>
        served_forEach rest fun y hy => h y (List.mem_cons_of_mem _ hy)

/-! ## One operation -/

section Operations

variable {deadline : Option Instant} {s s' : Session Hosted} {op : Operation} {q : Inquiry}
variable {reply : Reply}

/-- What is gathered of one operation. -/
theorem gather_of_sole {e : Ending} {flag : Bool} (h : Board.run (hosted site) o .all deadline
      (passBound 1) (start s [{ work := .use op }]) = (sole op s' none (.ended e), flag)) :
    gather (hosted site) o .all deadline [{ work := .use op }] s
      = (s', if flag then none else some [e]) := by
  rw [gather_eq, List.length_singleton, h]
  rfl

/-- An operation that ends in no error of the client. -/
theorem errors_of_sole {e : Ending} {flag : Bool} (h : Board.run (hosted site) o .all deadline
      (passBound 1) (start s [{ work := .use op }]) = (sole op s' none (.ended e), flag))
    (he : ∀ x, e ≠ .returned (.error x)) :
    (perform op).run.errors (hosted site) o deadline s = [] := by
  show (Program.gather .all [{ work := .use op }] _).errors _ _ deadline s = _
  rw [Program.errors, Program.rounds, List.flatMap_cons, gatherMoves, ← run_eq_moves,
    List.length_singleton, h, gather_of_sole h]
  cases e with
  | returned r =>
      cases r with
      | ok reply => cases flag <;> rfl
      | error x => exact absurd rfl (he x)
  | cancelled | crashed m => cases flag <;> rfl

/-- An operation that ends in a reply. -/
theorem perform_of_reply (h : Board.run (hosted site) o .all deadline (passBound 1)
      (start s [{ work := .use op }]) = (sole op s' none (.ended (.returned (.ok reply))), false)) :
    (perform op).run.run (hosted site) o deadline s = (s', .done (.ok reply)) ∧
      (perform op).run.errors (hosted site) o deadline s = [] := by
  refine ⟨?_, errors_of_sole h nofun⟩
  show (Program.gather .all [{ work := .use op }] _).run _ _ deadline s = _
  rw [Program.run, gather_of_sole h]
  rfl

/-- An operation that is dropped. -/
theorem perform_of_drop (h : Board.run (hosted site) o .all deadline (passBound 1)
      (start s [{ work := .use op }]) = (sole op s' none (.ended .cancelled), true)) :
    (perform op).run.run (hosted site) o deadline s = (s', .dropped) ∧
      (perform op).run.errors (hosted site) o deadline s = [] := by
  refine ⟨?_, errors_of_sole h nofun⟩
  show (Program.gather .all [{ work := .use op }] _).run _ _ deadline s = _
  rw [Program.run, gather_of_sole h]
  rfl

/-- A request whose answers are all good. -/
theorem served_perform {post : Reply → Prop} (ht : Timely site o least lag) (hop : op.asks o = some q)
    (hq : q.purpose ≠ .opening)
    (hanswers : ∀ s : State, ∀ id, s.flags.Sound → id < Word.bound →
      ∃ r reply, AnswersWith site.isThere s q id r ∧ q.gives r = .ok reply ∧ post reply) :
    Served site o least lag 1 (perform op) post := by
  intro deadline s hs
  have horderly := hs.orderly
  obtain ⟨r, reply, hr, hgives, hpost⟩ :=
    hanswers s.wire.server (s.conn.lastId + 1) horderly.flags hs.ids
  obtain ⟨notes, line, hout, hnotes, hread⟩ := hr.lines
  have hclock : s.now + o.requestTimeout < clockEnd :=
    Nat.lt_of_le_of_lt (Nat.add_le_add_right (Nat.le_add_right _ _) _) hs.clock
  obtain ⟨s', e, flag, hrun, horderly', hlast, hgets⟩ := run_of_answered ht horderly
    hop hq hclock hs.ahead hout hnotes hread hr.carried hr.shape
  have hids : s'.conn.lastId ≤ s.conn.lastId + 1 := Nat.le_of_eq hlast
  cases hgets with
  | answer hafter hnow =>
      rw [hgives] at hrun
      obtain ⟨hresult, herrors⟩ := perform_of_reply hrun
      rw [← Nat.one_mul least] at hafter
      rw [← Nat.one_mul lag] at hnow
      rw [hresult]
      exact ⟨herrors, horderly', hids, hnow, .inl ⟨_, rfl, ⟨reply, rfl, hpost⟩, hafter⟩⟩
  | dropped hd hnow hlate =>
      obtain ⟨hresult, herrors⟩ := perform_of_drop hrun
      have htime : s'.now ≤ s.now + 1 * lag := by
        rw [hnow, Nat.one_mul]
        exact Nat.le_of_lt hlate
      rw [hresult]
      refine ⟨herrors, horderly', hids, htime, .inr ⟨rfl, _, hd, ?_⟩⟩
      rwa [Nat.one_mul]

/-- A look at the client, which the server leaves open. -/
theorem served_ask {q : Query} {post : Reply → Prop}
    (hlook : ∀ s, Orderly lag s → ∃ reply, look (hosted site) s q = (s, reply) ∧ post reply) :
    Served site o least lag 0 (perform (.ask q)) post := by
  intro deadline s hs
  obtain ⟨reply, hreply, hpost⟩ := hlook s hs.orderly
  have hrun := run_of_ask (T := hosted site) (o := o) (s := s) deadline q
  rw [hreply] at hrun
  obtain ⟨hresult, herrors⟩ := perform_of_reply hrun
  have hafter : s.now + 0 * least ≤ s.now := by rw [Nat.zero_mul]; exact Nat.le_refl _
  rw [hresult]
  exact ⟨herrors, hs.orderly, Nat.le_refl _, Nat.le_add_right _ _,
    .inl ⟨_, rfl, ⟨reply, rfl, hpost⟩, hafter⟩⟩

variable {tool : String} {arguments : Json}

/-- A listing names the tools of the server. -/
theorem served_listTools (ht : Timely site o least lag) :
    Served site o least lag 1 listTools fun ts => ts = offered := by
  have hperform : Served site o least lag 1 (perform .listTools) fun r => r = .tools offered :=
    served_perform ht rfl nofun fun s id hs hid => by
      obtain ⟨r, hr, hgives⟩ := @answers_listing site.isThere s id hs hid
      exact ⟨r, _, hr, hgives, rfl⟩
  refine served_bind_zero hperform fun r hr => ?_
  subst hr
  exact served_pure rfl

/-- A call is answered with a response that is well-shaped. -/
theorem served_callTool (ht : Timely site o least lag) (harguments : Modest arguments) :
    Served site o least lag 1 (callTool tool arguments) fun r => r.misshape = none := by
  have hperform : Served site o least lag 1 (perform (.callTool tool arguments)) fun reply =>
      ∃ r, reply = .response r ∧ r.misshape = none :=
    served_perform (q := callInquiry tool arguments) ht rfl nofun fun s id hs hid => by
      obtain ⟨r, hr⟩ := @answers_call site.isThere s id tool arguments hs hid harguments
      exact ⟨r, _, hr, rfl, r, rfl, hr.shape⟩
  refine served_bind_zero hperform fun reply hreply => ?_
  obtain ⟨r, rfl, hshape⟩ := hreply
  exact served_pure hshape

/-- A scan of a path is answered with a result. -/
theorem served_scan (ht : Timely site o least lag) (path : String) :
    Served site o least lag 1 (callTool "scan_dependencies" (Suite.projectArgument path))
      fun r => r.misshape = none ∧ IsScanReply r := by
  have hperform : Served site o least lag 1
      (perform (.callTool "scan_dependencies" (Suite.projectArgument path))) fun reply =>
        ∃ r, reply = .response r ∧ r.misshape = none ∧ IsScanReply r :=
    served_perform (q := callInquiry "scan_dependencies" (Suite.projectArgument path)) ht rfl nofun
      fun s id hs hid => by
        obtain ⟨r, hr, hscan⟩ := @answers_scan site.isThere s id hs hid path
        exact ⟨r, _, hr, rfl, r, rfl, hr.shape, hscan⟩
  refine served_bind_zero hperform fun reply hreply => ?_
  obtain ⟨r, rfl, hscan⟩ := hreply
  exact served_pure hscan

theorem served_isConnected : Served site o least lag 0 isConnected fun up => up = true := by
  have hperform : Served site o least lag 0 (perform (.ask .connected)) fun r => r = .connected true :=
    served_ask fun s hs => ⟨_, look_of_orderly hs, rfl⟩
  refine served_bind_zero hperform fun r hr => ?_
  subst hr
  exact served_pure rfl

theorem served_state : Served site o least lag 0 state fun s => s = .ready := by
  have hperform : Served site o least lag 0 (perform (.ask .state)) fun r => r = .state .ready :=
    served_ask fun s hs => ⟨_, rfl, congrArg Reply.state hs.state⟩
  refine served_bind_zero hperform fun r hr => ?_
  subst hr
  exact served_pure rfl

end Operations

end Check

namespace Suite

open Check

section Parts

variable {site : Site} {o : ClientOptions} {least lag : Duration} {tool : String} {arguments : Json}
variable {post : Wire.Response → Prop}

theorem isSome_of_shape {r : Wire.Response} (h : r.misshape = none) :
    (r.result.isSome || r.error.isSome) = true := by
  obtain ⟨jsonrpc, id, result, error⟩ := r
  cases result <;> cases error <;> first | rfl | exact nomatch h

/-- A call is handled if its response is well-shaped. -/
theorem served_handled (hcall : Check.Served site o least lag 1 (callTool tool arguments) post)
    (hpost : ∀ r, post r → r.misshape = none) :
    Check.Served site o least lag 1 (callHandled tool arguments) post :=
  served_bind_zero (served_within _ hcall) fun r hr =>
    served_bind_zero (served_ensure (isSome_of_shape (hpost r hr)) _) fun _ _ => served_pure hr

theorem served_callHandled (ht : Timely site o least lag) (harguments : Modest arguments) :
    Check.Served site o least lag 1 (callHandled tool arguments) fun _ => True :=
  served_imp (served_handled (served_callTool ht harguments) fun _ => id) fun _ _ => trivial

theorem served_scanWithResult (ht : Timely site o least lag) (path : String) :
    Check.Served site o least lag 1 (callWithResult "scan_dependencies" (projectArgument path))
      IsScanReply := by
  refine served_bind_zero (served_handled (served_scan ht path) fun _ hr => hr.1) fun r hr => ?_
  rw [hr.2.error]
  exact served_pure hr.2

theorem served_handleAll (ht : Timely site o least lag) {calls : List (String × Json)}
    (hcalls : ∀ x ∈ calls, Modest x.2) :
    Check.Served site o least lag calls.length (handleAll tool calls) fun _ => True := by
  rw [← Nat.mul_one calls.length]
  refine served_forEach calls fun x hx => ?_
  exact served_bind_zero (served_within x.1 (served_callHandled ht (hcalls x hx))) fun _ _ =>
    served_pure trivial

end Parts

/-! ## The suites -/

/-- The most that a test costs of the suites that list the tools and call them. -/
def price : Nat := 9

/-- Every test of the suite is served at its price, whatever directory it is given. -/
def Served (site : Site) (o : ClientOptions) (least lag : Duration) (s : Suite) : Prop :=
  ∀ t ∈ s.tests, ∀ project, ∃ n ≤ price,
    Check.Served site o least lag n (t.body project) fun _ => True

section Suites

variable {site : Site} {o : ClientOptions} {least lag : Duration}

theorem described_of_offered : ∀ t ∈ offered, (!t.name.isEmpty) = true ∧
    (!t.description.isEmpty) = true ∧ t.inputSchema.isObject = true := by
  decide

theorem Smoke.served (ht : Timely site o least lag) : Smoke.suite.Served site o least lag := by
  intro t hmem project
  simp only [suite, List.mem_cons, List.not_mem_nil, or_false] at hmem
  have hlisting : ∀ {f : List Wire.Tool → Check Unit},
      Check.Served site o least lag 0 (f offered) (fun _ => True) →
        Check.Served site o least lag 1 (listTools >>= f) fun _ => True := fun hf =>
    served_bind_zero (served_listTools ht) fun ts hts => hts ▸ hf
  have hcall : ∀ tool arguments, Modest arguments →
      Check.Served site o least lag 1 (handles tool arguments project) fun _ => True :=
    fun tool arguments harguments =>
      served_bind_zero (served_callHandled ht harguments) fun _ _ => served_pure trivial
  have hone : 1 ≤ price := by decide
  rcases hmem with rfl | rfl | rfl | rfl | rfl | rfl | rfl | rfl | rfl
  · refine ⟨0, Nat.zero_le price, ?_⟩
    exact served_bind_zero served_isConnected fun _ hup =>
      served_bind_zero (served_ensure hup _) fun _ _ =>
      served_bind_zero served_state fun _ hstate => served_ensure (by rw [hstate]; rfl) _
  · refine ⟨1, hone, hlisting ?_⟩
    refine served_bind_zero (served_ensure rfl _) fun _ _ => ?_
    exact served_forEach expectedTools fun tool htool => served_ensure (by revert tool; decide) _
  · refine ⟨1, hone, ?_⟩
    exact served_bind_zero (served_scanWithResult ht project) fun r hr => served_ensure hr.list _
  · refine ⟨1, hone, served_bind_zero (served_scanWithResult ht project) fun r hr => ?_⟩
    dsimp only
    split
    · exact served_ensure hr.text _
    · exact served_pure trivial
  · refine ⟨1, hone, hlisting (served_forEach (n := 0) offered fun t ht => ?_)⟩
    obtain ⟨hname, hdescription, _⟩ := described_of_offered t ht
    exact served_bind_zero (served_ensure hname _) fun _ _ => served_ensure hdescription _
  · refine ⟨1, hone, hlisting (served_forEach offered fun t ht => served_ensure ?_ _)⟩
    exact (described_of_offered t ht).2.2
  · exact ⟨1, hone, hcall _ _ (modest_projectArgument _)⟩
  · exact ⟨1, hone, hcall _ _ (modest_classArguments _ _)⟩
  · exact ⟨1, hone, hcall _ _ (modest_classArguments _ _)⟩

theorem EdgeCases.served (ht : Timely site o least lag) : EdgeCases.suite.Served site o least lag := by
  have hhandled : ∀ name tool (arguments : String → Json), (∀ project, Modest (arguments project)) →
      ∀ project, ∃ n ≤ price, Check.Served site o least lag n
        ((handled name tool arguments).body project) fun _ => True :=
    fun name tool arguments hmodest project => ⟨1, by decide,
      served_bind_zero (served_callHandled ht (hmodest project)) fun _ _ => served_pure trivial⟩
  intro t hmem project
  simp only [suite, List.mem_cons, List.not_mem_nil, or_false] at hmem
  rcases hmem with rfl | rfl | rfl | rfl | rfl | rfl | rfl | rfl | rfl | rfl
  · exact hhandled _ _ _ (fun _ => modest_classArguments _ _) project
  · refine ⟨_, by decide, served_handleAll ht fun x hx => ?_⟩
    obtain ⟨name, _, rfl⟩ := List.mem_map.mp hx
    exact modest_classArguments name _
  · exact hhandled _ _ _ (fun _ => modest_classArguments _ _) project
  · exact hhandled _ _ _ (fun _ => modest_projectArgument _) project
  · exact hhandled _ _ _ (fun _ => modest_classArguments _ _) project
  · exact hhandled _ _ _ (fun _ => modest_projectArgument _) project
  · exact hhandled _ _ _ (fun _ => ⟨by decide, by decide⟩) project
  · exact hhandled _ _ _ (fun _ => ⟨by decide, by decide⟩) project
  · exact hhandled _ _ _ (fun _ => modest_classArguments _ _) project
  · refine ⟨_, by decide, served_handleAll ht fun x hx => ?_⟩
    obtain ⟨path, _, rfl⟩ := List.mem_map.mp hx
    exact modest_projectArgument path

/-- Looks at classes cost one request each. -/
theorem BattlePrep.served_lookups (ht : Timely site o least lag) (name tool : String)
    (classes : List String) (project : String) :
    Check.Served site o least lag classes.length ((lookups name tool classes).body project)
      fun _ => True := by
  have hlength : (classes.map fun c => (tool ++ " " ++ c, classArguments c project)).length
      = classes.length := List.length_map _
  rw [← hlength]
  refine served_handleAll ht fun x hx => ?_
  obtain ⟨c, _, rfl⟩ := List.mem_map.mp hx
  exact modest_classArguments c project

theorem BattlePrep.served (ht : Timely site o least lag) :
    BattlePrep.suite.Served site o least lag := by
  intro t hmem project
  simp only [suite, List.mem_cons, List.not_mem_nil, or_false] at hmem
  rcases hmem with rfl | rfl | rfl | rfl | rfl | rfl | rfl | rfl | rfl | rfl
  · exact ⟨_, by decide, served_lookups ht _ _ _ project⟩
  · exact ⟨_, by decide, served_lookups ht _ _ _ project⟩
  · exact ⟨_, by decide, served_lookups ht _ _ _ project⟩
  · exact ⟨_, by decide, served_lookups ht _ _ _ project⟩
  · exact ⟨_, by decide, served_lookups ht _ _ _ project⟩
  · exact ⟨_, by decide, served_lookups ht _ _ _ project⟩
  · refine ⟨1 + 1, by decide, ?_⟩
    exact served_bind (served_within _ (served_scanWithResult ht project)) fun _ _ =>
      served_bind_zero (served_within _ (served_callHandled ht (modest_classArguments _ project)))
        fun _ _ => served_pure trivial
  · refine ⟨[1, 2, 3].length * 1, by decide, ?_⟩
    show Check.Served site o least lag _ (repeatedScans project) _
    rw [repeatedScans]
    refine served_forEach (n := 1) [1, 2, 3] fun attempt _ => ?_
    exact served_bind_zero (served_within _ (served_scanWithResult ht project)) fun _ _ =>
      served_pure trivial
  · exact ⟨_, by decide, served_lookups ht _ _ _ project⟩
  · exact ⟨_, by decide, served_lookups ht _ _ _ project⟩

end Suites

end Suite

end Conformance
