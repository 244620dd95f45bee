/-
Conformance — which lines are taken for an answer.

Said of the document alone, with every field in its place: what the answer to
request `id` is (`AnswersAsObject`), and what else is taken for one
(`AnswersAsList`).  The protocol knows objects only.  A record is read from a
list as well, so a list of the fields of a response is taken for a response,
and a list of the fields of an error for an error.

`answer_iff` says that these two are all, of the whole wait and of the
operations that return what they waited for.  `answer_of_list` is a line that
no server should have sent, and that is taken.
-/
import Conformance.Proofs.Session.History
import Conformance.Proofs.Wait.Deadline
import Conformance.Proofs.Wire.Acceptance

namespace Conformance

open Wire (TextOr RpcError Response)

/-! ## Answers -/

/-- The document is the answer `r` to request `id`: an object without a method, with that id, and
with a result or an error object.  An error of `null` is none. -/
inductive AnswersAsObject (id : Nat) : Json → Response → Prop
  | result {ms : List (String × Json)} {jsonrpc : String} {v : Json} :
      ms.lookup "method" = none → ms.lookup "id" = some (.nat id) →
      TextOr Wire.rpcVersion (ms.lookup "jsonrpc") jsonrpc → ms.lookup "result" = some v →
      ms.lookup "error" = none ∨ ms.lookup "error" = some .null →
      AnswersAsObject id (.obj ms) { jsonrpc, id, result := some v }
  | error {ms es : List (String × Json)} {jsonrpc : String} {e : RpcError} :
      ms.lookup "method" = none → ms.lookup "id" = some (.nat id) →
      TextOr Wire.rpcVersion (ms.lookup "jsonrpc") jsonrpc → ms.lookup "result" = none →
      ms.lookup "error" = some (.obj es) → RpcError.Reads (fun n => es.lookup n) e →
      AnswersAsObject id (.obj ms) { jsonrpc, id, error := some e }

/-- The document is taken for the answer `r` to request `id`, and has a list where an object
should be: a list of the fields of a response with a result, or an object with a list of the
fields of an error. -/
inductive AnswersAsList (id : Nat) : Json → Response → Prop
  | result {jsonrpc : String} {v : Json} {rest : List Json} : rest = [] ∨ rest = [.null] →
      AnswersAsList id (.arr (.str jsonrpc :: .nat id :: v :: rest))
        { jsonrpc, id, result := some v }
  | error {ms : List (String × Json)} {es : List Json} {jsonrpc : String} {e : RpcError} :
      ms.lookup "method" = none → ms.lookup "id" = some (.nat id) →
      TextOr Wire.rpcVersion (ms.lookup "jsonrpc") jsonrpc → ms.lookup "result" = none →
      ms.lookup "error" = some (.arr es) → es.length ≤ RpcError.fields.length →
      RpcError.Reads (fun n => es[RpcError.fields.idxOf n]?) e →
      AnswersAsList id (.obj ms) { jsonrpc, id, error := some e }

/-- The line is taken for the answer `r` to request `id`. -/
def Accepts (id : Nat) (text : String) (r : Response) : Prop :=
  ∃ v, Json.parse (Text.trim text) = .ok v ∧ (AnswersAsObject id v r ∨ AnswersAsList id v r)

theorem misshape_eq_none_iff {r : Response} :
    r.misshape = none ↔ (∃ v, r.result = some v ∧ r.error = none) ∨
      ∃ e, r.result = none ∧ r.error = some e := by
  obtain ⟨jsonrpc, id, result, error⟩ := r
  cases result <;> cases error <;> simp [Response.misshape]

section Document

variable {id : Nat} {v : Json} {r : Response}

/-- What an object is taken for. -/
theorem answers_of_object {ms : List (String × Json)}
    (hm : ms.lookup "method" = none) (hr : Response.Reads (fun n => ms.lookup n) r)
    (hs : r.misshape = none) :
    AnswersAsObject r.id (.obj ms) r ∨ AnswersAsList r.id (.obj ms) r := by
  obtain ⟨hjsonrpc, hid, -, hresult, herror⟩ := hr
  obtain ⟨jsonrpc, id, result, error⟩ := r
  rcases misshape_eq_none_iff.mp hs with ⟨v, rfl, rfl⟩ | ⟨e, rfl, rfl⟩
  · exact .inl (.result hm hid hjsonrpc hresult (Wire.optionally_none_iff.mp herror))
  · dsimp only at herror
    generalize hj : ms.lookup "error" = j at herror
    cases herror with
    | given _ hrecord =>
        cases hrecord with
        | object he => exact .inl (.error hm hid hjsonrpc hresult hj he)
        | list hlength he => exact .inr (.error hm hid hjsonrpc hresult hj hlength he)

/-- What a list is taken for. -/
theorem answers_of_list {xs : List Json} (hlength : xs.length ≤ Response.fields.length)
    (hr : Response.Reads (fun n => xs[Response.fields.idxOf n]?) r) (hs : r.misshape = none) :
    AnswersAsList r.id (.arr xs) r := by
  obtain ⟨jsonrpc, id, result, error⟩ := r
  have hjsonrpc : TextOr Wire.rpcVersion xs[0]? jsonrpc := hr.jsonrpc
  have hid : xs[1]? = some (.nat id) := hr.id
  have hresult : xs[2]? = result := hr.result
  have herror : Wire.Optionally (Wire.Record RpcError.fields RpcError.Reads) xs[3]? error :=
    hr.error
  match xs with
  | [] | [_] => exact nomatch hid
  | [_, _] =>
      cases hresult
      cases herror
      exact nomatch hs
  | x :: y :: v :: rest =>
      cases hid
      cases hresult
      rcases misshape_eq_none_iff.mp hs with ⟨_, -, rfl⟩ | ⟨_, hnone, -⟩
      · cases hjsonrpc
        refine .result ?_
        -- only one item is left, and it holds no error
        match rest with
        | [] => exact .inl rfl
        | [_] =>
            obtain h | h := Wire.optionally_none_iff.mp herror
            · exact nomatch h
            · cases h
              exact .inr rfl
        | _ :: _ :: _ => exact absurd hlength (by simp [Response.fields])
      · exact nomatch hnone

/-- An object with these members is read as an error response. -/
theorem reads_of_error {ms : List (String × Json)} {jsonrpc : String} {e : RpcError} {v : Json}
    (hword : Wire.IsWord id) (hid : ms.lookup "id" = some (.nat id))
    (hjsonrpc : TextOr Wire.rpcVersion (ms.lookup "jsonrpc") jsonrpc)
    (hresult : ms.lookup "result" = none) (herror : ms.lookup "error" = some v)
    (he : Wire.Record RpcError.fields RpcError.Reads v e) :
    Response.Reads (fun n => ms.lookup n) { jsonrpc, id, error := some e } where
  jsonrpc := hjsonrpc
  id := hid
  word := hword
  result := hresult
  error := by
    dsimp only
    rw [herror]
    exact .given (by rintro rfl; cases he) he

theorem isWord_of_inWords {n : Nat} (h : (Json.nat n).inWords = true) : Wire.IsWord n :=
  Json.lt_of_asNat? h (by simp [Json.nat, Json.asNat?])

/-- The id of an answer is a word, since no other integer is read. -/
theorem isWord_of_answers (hv : v.inWords = true)
    (h : AnswersAsObject id v r ∨ AnswersAsList id v r) : Wire.IsWord id := by
  have hmember : ∀ ms : List (String × Json), (Json.obj ms).inWords = true →
      ms.lookup "id" = some (.nat id) → Wire.IsWord id := fun ms hms hid =>
    isWord_of_inWords (Json.inWords_of_get? (v := .obj ms) hms hid)
  rcases h with h | h
  · cases h with
    | result _ hid | error _ hid => exact hmember _ hv hid
  · cases h with
    | error _ hid => exact hmember _ hv hid
    | result =>
        rw [Json.inWords] at hv
        exact isWord_of_inWords (Json.inWordsItems_iff.mp hv _ (by simp))

/-- The documents that are taken for an answer are the objects of the protocol and the lists. -/
theorem answers_iff (hv : v.inWords = true) :
    v.get? "method" = none ∧ Response.decode v = .ok r ∧ r.id = id ∧ r.misshape = none ↔
      AnswersAsObject id v r ∨ AnswersAsList id v r := by
  constructor
  · rintro ⟨hm, hd, rfl, hs⟩
    cases Response.decode_eq_ok_iff.mp hd with
    | object hr => exact answers_of_object hm hr hs
    | list hlength hr => exact .inr (answers_of_list hlength hr hs)
  · intro h
    have hword : Wire.IsWord id := isWord_of_answers hv h
    rw [Response.decode_eq_ok_iff]
    rcases h with h | h
    · cases h with
      | result hm hid hjsonrpc hresult herror =>
          exact ⟨hm, .object ⟨hjsonrpc, hid, hword, hresult,
            Wire.optionally_none_iff.mpr herror⟩, rfl, rfl⟩
      | error hm hid hjsonrpc hresult herror he =>
          exact ⟨hm, .object (reads_of_error hword hid hjsonrpc hresult herror (.object he)),
            rfl, rfl⟩
    · cases h with
      | result hrest =>
          refine ⟨rfl, .list ?_ ⟨.given, rfl, hword, rfl, ?_⟩, rfl, rfl⟩
          · rcases hrest with rfl | rfl <;> simp [Response.fields]
          · rcases hrest with rfl | rfl
            · exact .missing
            · exact .null
      | error hm hid hjsonrpc hresult herror hlength he =>
          exact ⟨hm, .object (reads_of_error hword hid hjsonrpc hresult herror (.list hlength he)),
            rfl, rfl⟩

end Document

/-! ## Lines -/

section Line

variable {id : Nat} {abandoned : Option Nat} {limit : Duration} {r : Response}

/-- A line is judged to be the answer when it is taken for it. -/
theorem judge_eq_answer_iff {text : String} :
    judge id abandoned limit (.ok (.line text)) = some (.answer r) ↔ Accepts id text r := by
  have hdecides : Decides id abandoned limit (.ok (.line text)) (.answer r) ↔
      responseOf (.ok (.line text)) = some r ∧ r.id = id ∧ r.misshape = none := by
    constructor
    · intro h
      cases h with
      | answer hr hid hs => exact ⟨hr, hid, hs⟩
    · rintro ⟨hr, hid, hs⟩
      exact .answer hr hid hs
  rw [judge_eq_some_iff, hdecides, responseOf_line]
  constructor
  · rintro ⟨⟨v, hp, hm, hd⟩, hid, hs⟩
    exact ⟨v, hp, (answers_iff (Json.inWords_of_parse hp)).mp ⟨hm, hd, hid, hs⟩⟩
  · rintro ⟨v, hp, h⟩
    obtain ⟨hm, hd, hid, hs⟩ := (answers_iff (Json.inWords_of_parse hp)).mpr h
    exact ⟨⟨v, hp, hm, hd⟩, hid, hs⟩

/-- Only a line is judged to be the answer. -/
theorem line_of_answer {item : Except ClientError Incoming}
    (h : judge id abandoned limit item = some (.answer r)) :
    ∃ text, item = .ok (.line text) ∧ Accepts id text r := by
  cases judge_eq_some_iff.mp h with
  | answer hr _ _ =>
      obtain ⟨text, rfl⟩ := line_of_responseOf hr
      exact ⟨text, rfl, judge_eq_answer_iff.mp h⟩

/-- A wait gives a response exactly when the last item that it reads is a line that is taken for
it. -/
theorem await_eq_answer_iff {deadline now : Instant} {arrivals : List Arrival} :
    (await id abandoned limit deadline now arrivals).verdict = .answer r ↔
      ∃ pre a post text, arrivals = pre ++ a :: post ∧ a.item = .ok (.line text) ∧
        (await id abandoned limit deadline now arrivals).taken = pre.length + 1 ∧
        Accepts id text r := by
  induction arrivals generalizing now with
  | nil => simp [await]
  | cons a rest ih =>
      by_cases hend : deadline ≤ now
      · simp [await, if_pos hend]
      by_cases hlate : deadline < a.time
      · simp [await, if_neg hend, if_pos hlate]
      cases hj : judge id abandoned limit a.item with
      | some v =>
          simp only [await, if_neg hend, if_neg hlate, hj]
          constructor
          · rintro rfl
            obtain ⟨text, hitem, haccepts⟩ := line_of_answer hj
            exact ⟨[], a, rest, text, rfl, hitem, rfl, haccepts⟩
          · rintro ⟨pre, b, post, text, hsplit, hitem, htaken, haccepts⟩
            cases List.eq_nil_of_length_eq_zero (Nat.succ.inj htaken).symm
            cases hsplit
            rw [hitem, judge_eq_answer_iff.mpr haccepts] at hj
            exact (Option.some.inj hj).symm
      | none =>
          simp only [await, if_neg hend, if_neg hlate, hj, ih]
          constructor
          · rintro ⟨pre, b, post, text, rfl, hitem, htaken, haccepts⟩
            exact ⟨a :: pre, b, post, text, rfl, hitem, congrArg (· + 1) htaken, haccepts⟩
          · rintro ⟨pre, b, post, text, hsplit, hitem, htaken, haccepts⟩
            cases pre with
            | nil =>
                -- the first item decides nothing, so it is no answer
                cases hsplit
                rw [hitem, judge_eq_answer_iff.mpr haccepts] at hj
                cases hj
            | cons c pre =>
                cases hsplit
                exact ⟨pre, b, post, text, rfl, hitem, Nat.succ.inj htaken, haccepts⟩

end Line

/-! ## Operations -/

section Operations

open Client

variable {o : ClientOptions} {s : Client} {id : Nat} {item : Except ClientError Incoming}

/-- An exchange that fails gives no reply. -/
theorem settle_fail (c : Connection) (purpose : Purpose) (e : ClientError) :
    (settle (c.fail purpose e)).2 = some (.error (purpose.wrap e)) := by
  rw [Connection.fail_eq]
  rfl

/-- A call returns the response that it waited for, and no other. -/
theorem step_eq_response_iff (hp : s.phase = some (.await .answer id)) {r : Response} :
    (∃ s', s.step o (.heard item) = some (s', some (.ok (.response r)))) ↔
      judge id s.conn.abandoned o.requestTimeout item = some (.answer r) := by
  rw [step_heard hp]
  cases judge id s.conn.abandoned o.requestTimeout item with
  | none => simp
  | some v =>
      cases v with
      | answer r' => simp [Connection.settled, settle]
      | misshapen e | refuse e => simp [Connection.settled, Prod.ext_iff, settle_fail]

/-- A listing returns the tools of the response that it waited for. -/
theorem step_eq_tools_iff (hp : s.phase = some (.await .listing id)) {ts : List Wire.Tool} :
    (∃ s', s.step o (.heard item) = some (s', some (.ok (.tools ts)))) ↔
      ∃ r, judge id s.conn.abandoned o.requestTimeout item = some (.answer r) ∧
        toolsOf r = .ok ts := by
  rw [step_heard hp]
  cases judge id s.conn.abandoned o.requestTimeout item with
  | none => simp
  | some v =>
      cases v with
      | answer r' =>
          cases htools : toolsOf r' <;> simp [Connection.settled, settle, htools, Except.map]
      | misshapen e | refuse e => simp [Connection.settled, Prod.ext_iff, settle_fail]

end Operations

/-- A wait gives a response exactly when the last item that it reads is a line that is taken for
it.  A call that hears a line returns a response exactly when the line is taken for that, and a
listing returns tools exactly when it is taken for a response that names them.  What is taken for
an answer without being one as the protocol has it has a list where an object should be. -/
theorem answer_iff (id : Nat) :
    (∀ abandoned limit deadline now arrivals r,
      (await id abandoned limit deadline now arrivals).verdict = .answer r ↔
        ∃ pre a post text, arrivals = pre ++ a :: post ∧ a.item = .ok (.line text) ∧
          (await id abandoned limit deadline now arrivals).taken = pre.length + 1 ∧
          Accepts id text r) ∧
    (∀ (o : ClientOptions) (s : Client), s.phase = some (.await .answer id) → ∀ text r,
      ((∃ s', s.step o (.heard (.ok (.line text))) = some (s', some (.ok (.response r)))) ↔
        Accepts id text r)) ∧
    (∀ (o : ClientOptions) (s : Client), s.phase = some (.await .listing id) → ∀ text ts,
      ((∃ s', s.step o (.heard (.ok (.line text))) = some (s', some (.ok (.tools ts)))) ↔
        ∃ r, Accepts id text r ∧ toolsOf r = .ok ts)) ∧
    ∀ v r r', AnswersAsList id v r → ¬ AnswersAsObject id v r' := by
  refine ⟨fun _ _ _ _ _ _ => await_eq_answer_iff, fun o s hp text r => ?_,
    fun o s hp text ts => ?_, fun v r r' hlist hobject => ?_⟩
  · rw [step_eq_response_iff hp, judge_eq_answer_iff]
  · simp only [step_eq_tools_iff hp, judge_eq_answer_iff]
  · cases hlist with
    | result => cases hobject
    | error _ _ _ hresult herror =>
        cases hobject with
        | result _ _ _ hresult' => exact nomatch hresult.symm.trans hresult'
        | error _ _ _ _ herror' => exact nomatch herror.symm.trans herror'

/-- While a call awaits its answer to request 2, a list of three items is taken for it, which no
object is. -/
theorem answer_of_list :
    ∃ h s', Run {} h ∧ h.now.phase = some (.await .answer 2) ∧
      h.now.step {} (.heard (.ok (.line "[\"2.0\",2,\x7b\x7d]")))
        = some (s', some (.ok (.response { id := 2, result := some (.obj []) }))) ∧
      ∀ r, ¬ AnswersAsObject 2 (.arr [.str "2.0", .nat 2, .obj []]) r := by
  have hrun : Run {} (History.play {}
      [.start .connect, .written (.ok ()),
        .heard (.ok (.line "\x7b\"id\":1,\"result\":\x7b\x7d\x7d")), .written (.ok ()),
        .start (.callTool "t" (.obj [])), .written (.ok ())]) := run_play _ _
  have hlist : AnswersAsList 2 (.arr [.str "2.0", .nat 2, .obj []])
      { id := 2, result := some (.obj []) } := .result (.inl rfl)
  have hphase : (History.now (History.play {}
      [.start .connect, .written (.ok ()),
        .heard (.ok (.line "\x7b\"id\":1,\"result\":\x7b\x7d\x7d")), .written (.ok ()),
        .start (.callTool "t" (.obj [])), .written (.ok ())])).phase = some (.await .answer 2) := rfl
  obtain ⟨s', hs'⟩ := ((answer_iff 2).2.1 {} _ hphase "[\"2.0\",2,\x7b\x7d]" _).mpr
    ⟨_, rfl, .inr hlist⟩
  exact ⟨_, s', hrun, hphase, hs', fun r => (answer_iff 2).2.2.2 _ _ r hlist⟩

end Conformance
