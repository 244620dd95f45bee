/-
Conformance — whole messages on the server's input.

A line goes into the pipe as one frame, its newline behind it; a write that is
dropped or fails has put in a part of its frame (`Portion`).  What the server
reads up to a newline is therefore one message, and in front of it whatever was
left of messages before it that were cut (`received`).  So its lines are the
messages, each by itself, exactly if behind a message that was cut in the middle
none is written whole any more (`received_eq_iff`).

Nothing in the client sees to that: a drop leaves the pipe as it is, and the next
operation writes on (`whole_messages`).
-/
import Conformance.Machine.Server
import Conformance.Proofs.Json.OneLine
import Conformance.Proofs.Session.Queueing
import Conformance.Proofs.Stdio.Reading

namespace Conformance.Stdio

open Text (newline splitLines splitLines_ne_nil)

/-! ## Portions -/

/-- What a write has put into the pipe: its frame, or if it was not done a part of that. -/
structure Portion where
  message : String
  done : Bool
  octets : List UInt8
  part : octets <+: frame message
  full : done = true → octets = frame message

namespace Portion

/-- The frame is in the pipe, its newline with it. -/
def Whole (p : Portion) : Prop := p.octets = frame p.message

/-- The message was cut in the middle. -/
def Cut (p : Portion) : Prop := ¬ p.Whole ∧ p.octets ≠ []

instance (p : Portion) : Decidable p.Whole := inferInstanceAs (Decidable (_ = _))

/-- The message is one line. -/
def OneLine (p : Portion) : Prop := newline ∉ Utf8.encode p.message

/-- What is in the pipe of a frame that is not whole has no newline. -/
theorem unbroken {p : Portion} (hp : p.OneLine) (hcut : ¬ p.Whole) : newline ∉ p.octets := by
  rcases List.prefix_concat_iff.mp p.part with hwhole | hpart
  · exact absurd hwhole hcut
  · exact fun h => hp (hpart.subset h)

end Portion

/-- The lines that are ended by a newline. -/
def ended (octets : List UInt8) : List (List UInt8) := (splitLines octets).dropLast

/-- The lines that portions make, `left` being what lies in front of them without a newline. -/
def received : List UInt8 → List Portion → List (List UInt8)
  | _, [] => []
  | left, p :: ps =>
      if p.Whole then (left ++ Utf8.encode p.message) :: received [] ps
      else received (left ++ p.octets) ps

theorem splitLines_append_newline {a : List UInt8} (rest : List UInt8) (h : newline ∉ a) :
    splitLines (a ++ newline :: rest) = a :: splitLines rest := by
  induction a with
  | nil => rw [List.nil_append, splitLines, if_pos rfl]
  | cons b a ih =>
      obtain ⟨hb, ha⟩ := List.ne_and_not_mem_of_not_mem_cons h
      rw [List.cons_append, splitLines, if_neg (Ne.symm hb), ih ha]

/-- A line that a newline ends is the message of that newline behind what was left before it.
The induction goes from portion to portion, with what is left over carried along. -/
theorem ended_of_portions (ps : List Portion) : ∀ {left : List UInt8}, newline ∉ left →
    (∀ p ∈ ps, p.OneLine) → ended (left ++ ps.flatMap (·.octets)) = received left ps := by
  induction ps with
  | nil =>
      intro left hleft _
      rw [List.flatMap_nil, List.append_nil, ended, splitLines_of_unbroken hleft]
      rfl
  | cons p ps ih =>
      intro left hleft hps
      have hp : p.OneLine := hps p List.mem_cons_self
      have hrest : ∀ q ∈ ps, q.OneLine := fun q hq => hps q (List.mem_cons_of_mem p hq)
      rw [List.flatMap_cons, received]
      split
      · rename_i hwhole
        have hline : newline ∉ left ++ Utf8.encode p.message :=
          List.not_mem_append hleft hp
        have hsplit : left ++ (p.octets ++ ps.flatMap (·.octets))
            = (left ++ Utf8.encode p.message) ++ newline :: ps.flatMap (·.octets) := by
          rw [hwhole, frame]
          simp
        rw [hsplit, ended, splitLines_append_newline _ hline,
          List.dropLast_cons_of_ne_nil (splitLines_ne_nil _)]
        exact congrArg _ (ih List.not_mem_nil hrest)
      · rename_i hcut
        rw [← List.append_assoc]
        exact ih (List.not_mem_append hleft (Portion.unbroken hp hcut)) hrest

/-- The messages that were written whole. -/
def wholeMessages (ps : List Portion) : List (List UInt8) :=
  (ps.filter fun p => decide p.Whole).map fun p => Utf8.encode p.message

/-- The lines are the whole messages, each by itself, exactly if nothing is left in front of the
first and no message is written whole behind one that was cut. -/
theorem received_eq_iff (ps : List Portion) : ∀ left : List UInt8,
    received left ps = wholeMessages ps ↔
      (left ≠ [] → ∀ p ∈ ps, ¬ p.Whole) ∧ ps.Pairwise fun p q => p.Cut → ¬ q.Whole := by
  induction ps with
  | nil => simp [received, wholeMessages]
  | cons p ps ih =>
      intro left
      rw [received, List.pairwise_cons]
      by_cases hwhole : p.Whole
      · have hmessages : wholeMessages (p :: ps) = Utf8.encode p.message :: wholeMessages ps := by
          simp [wholeMessages, hwhole]
        rw [if_pos hwhole, hmessages, List.cons.injEq, ih []]
        constructor
        · rintro ⟨hleft, _, hpairs⟩
          have hnil : left = [] := by simpa using hleft
          exact ⟨fun hne => absurd hnil hne, fun _ _ hcut => absurd hwhole hcut.1, hpairs⟩
        · rintro ⟨hleft, _, hpairs⟩
          have hnil : left = [] := by
            by_contra hne
            exact hleft hne p List.mem_cons_self hwhole
          exact ⟨by rw [hnil, List.nil_append], fun hne => absurd rfl hne, hpairs⟩
      · have hmessages : wholeMessages (p :: ps) = wholeMessages ps := by
          simp [wholeMessages, hwhole]
        rw [if_neg hwhole, hmessages, ih]
        constructor
        · rintro ⟨hleft, hpairs⟩
          refine ⟨fun hne q hq => ?_, fun q hq hcut => ?_, hpairs⟩
          · rcases List.mem_cons.mp hq with rfl | hq
            · exact hwhole
            · exact hleft (by simp [hne]) q hq
          · exact hleft (by simp [hcut.2]) q hq
        · rintro ⟨hleft, hcuts, hpairs⟩
          refine ⟨fun hne q hq => ?_, hpairs⟩
          by_cases hnil : left = []
          · rw [hnil, List.nil_append] at hne
            exact hcuts q hq ⟨hwhole, hne⟩
          · exact hleft hnil q (List.mem_cons_of_mem p hq)

/-! ## The pipe of a transport -/

section Transports

variable {σ : Type} {T : Transport σ} {out : σ → List UInt8}

/-- `out` tells the octets that have gone into the pipe to the server: the whole frame of a line
that is reported as written, a part of it if the write fails or is dropped, and nothing else. -/
structure Pipes (T : Transport σ) (out : σ → List UInt8) : Prop where
  written : ∀ now line w, (T.write now line w).result.isOk = true →
    out (T.write now line w).after = out w ++ frame line
  failed : ∀ now line w, ∃ part, part <+: frame line ∧
    out (T.write now line w).after = out w ++ part
  dropped : ∀ now line t w, ∃ part, part <+: frame line ∧
    out ((T.write now line w).dropped t) = out w ++ part
  take : ∀ now n w, out (T.take now n w) = out w
  connected : ∀ now w, out (T.connected now w).1 = out w
  stopped : ∀ now grace w, out (T.stop now grace w).after = out w
  unstopped : ∀ now grace w, out (T.stop now grace w).dropped = out w

/-- The octets in the pipe are portions of these lines. -/
def Holds (out : σ → List UInt8) (ls : List (String × Bool)) (w : σ) : Prop :=
  ∃ ps : List Portion, ps.map (fun p => (p.message, p.done)) = ls ∧
    out w = ps.flatMap (·.octets)

theorem holds_append {ls : List (String × Bool)} {w w' : σ} (h : Holds out ls w) (p : Portion)
    (hout : out w' = out w ++ p.octets) : Holds out (ls ++ [(p.message, p.done)]) w' := by
  obtain ⟨ps, hps, hw⟩ := h
  exact ⟨ps ++ [p], by simp [hps], by simp [hout, hw]⟩

theorem holds_of_eq {ls : List (String × Bool)} {w w' : σ} (h : Holds out ls w)
    (hout : out w' = out w) : Holds out ls w' := by
  obtain ⟨ps, hps, hw⟩ := h
  exact ⟨ps, hps, hout.trans hw⟩

/-- A transport with a pipe keeps the portions of what it is given to write. -/
theorem keeps_of_pipes (hp : Pipes T out) : Keeps T (Holds out) where
  written now line ls w h := by
    cases hdone : (T.write now line w).result.isOk with
    | true =>
        exact holds_append h ⟨line, true, frame line, List.prefix_refl _, fun _ => rfl⟩
          (hp.written now line w hdone)
    | false =>
        obtain ⟨part, hpart, hout⟩ := hp.failed now line w
        exact holds_append h ⟨line, false, part, hpart, nofun⟩ hout
  unwritten now line t ls w h := by
    obtain ⟨part, hpart, hout⟩ := hp.dropped now line t w
    exact holds_append h ⟨line, false, part, hpart, nofun⟩ hout
  take now n ls w h := holds_of_eq h (hp.take now n w)
  connected now ls w h := holds_of_eq h (hp.connected now w)
  stopped now grace ls w h := holds_of_eq h (hp.stopped now grace w)
  unstopped now grace ls w h := holds_of_eq h (hp.unstopped now grace w)

/-- What a run writes is one line each. -/
theorem oneLine_of_run {o : ClientOptions} {h : History} (hrun : Run o h) {ps : List Portion}
    (hps : ps.map (fun p => (p.message, p.done)) = h.writes) : ∀ p ∈ ps, p.OneLine := by
  intro p hp
  have hwrite : (p.message, p.done) ∈ h.writes := hps ▸ List.mem_map_of_mem hp
  have hline : p.message ∈ h.lines.map (·.2) := by
    rw [← lines_of_writes hrun]
    exact List.mem_append_left _ (List.mem_map_of_mem hwrite)
  obtain ⟨l, hl, hmessage⟩ := List.mem_map.mp hline
  obtain ⟨⟨v, hv, _⟩, _⟩ := line_of_run hrun l hl
  rw [Portion.OneLine, ← hmessage, hv]
  exact Json.newline_not_mem_print v

/-- The server's input, whatever the client's users do and wherever their operations are dropped.
Behind the client is a run; each of its lines whose write has ended has put a portion into the
pipe, the whole frame if it was reported as written.  The lines that the server reads are the whole
messages in their order, each behind the octets that were left of messages cut before it.  So each
line is exactly one message if and only if no message was written whole behind one that was cut
in the middle. -/
theorem whole_messages (hp : Pipes T out) (o : ClientOptions) (now : Instant) {w : σ}
    (hw : out w = []) (branches : List Branch) (ms : List Move) :
    let b := (Board.start { now, wire := w } branches).moves T o ms
    ∃ h ps, Run o h ∧ h.now.conn = b.session.conn ∧
      ps.map (fun p : Portion => (p.message, p.done)) = h.writes ∧
      out b.session.wire = ps.flatMap (·.octets) ∧
      ended (out b.session.wire) = received [] ps ∧
      (ended (out b.session.wire) = wholeMessages ps ↔
        ps.Pairwise fun p q => p.Cut → ¬ q.Whole) := by
  intro b
  have hfresh : Follows o (Holds out) { now, wire := w } [] := follows_start now ⟨[], rfl, hw⟩
  obtain ⟨later, htracks, _⟩ := ids_of_moves (keeps_of_pipes hp)
    (sane_start { now, wire := w } branches) (tracks_start hfresh branches) ms
  obtain ⟨ps, hps, hout⟩ := htracks.wire
  have hended : ended (out b.session.wire) = received [] ps := by
    rw [hout]
    exact ended_of_portions ps List.not_mem_nil (oneLine_of_run htracks.run hps)
  refine ⟨later ++ [], ps, htracks.run, htracks.conn, hps, hout, hended, ?_⟩
  rw [hended, received_eq_iff]
  exact ⟨And.right, fun h => ⟨fun hne => absurd rfl hne, h⟩⟩

end Transports

/-! ## A pipe that takes a frame in two pieces -/

/-- The text of a line is taken at once, its newline a tick later. -/
def twoPieces : Transport (List UInt8) where
  write now line w :=
    { ends := some (now + 1)
      after := w ++ frame line
      result := .ok ()
      dropped := fun _ => w ++ Utf8.encode line }
  arrivals _ _ := []
  take _ _ w := w
  connected _ w := (w, true)
  stop now _ w := { ends := now, after := w, result := .ok (), dropped := w }
  stderr _ _ := []

theorem pipes_twoPieces : Pipes twoPieces id where
  written _ _ _ _ := rfl
  failed _ line _ := ⟨frame line, List.prefix_refl _, rfl⟩
  dropped _ line _ _ := ⟨Utf8.encode line, List.prefix_append _ _, rfl⟩
  take _ _ _ := rfl
  connected _ _ := rfl
  stopped _ _ _ := rfl
  unstopped _ _ _ := rfl

/-- Two lines in one pipe, the newline between them missing: they are read as one. -/
theorem ended_of_merged {first second : List UInt8} (hfirst : newline ∉ first)
    (hsecond : newline ∉ second) : ended (first ++ (second ++ [newline])) = [first ++ second] := by
  rw [← List.append_assoc, ended, splitLines_append_newline [] (List.not_mem_append hfirst hsecond)]
  rfl

/-- A session is being opened and its caller is dropped between the two pieces; the next caller
opens it. -/
def cutWrite : Board (List UInt8) :=
  (Board.start { now := 0, wire := [] } [{ work := .use .connect }, { work := .use .connect }]).moves
    twoPieces {} [.poll 0, .drop 0, .poll 1, .clock 1, .poll 1]

set_option maxRecDepth 4000 in
theorem cutWrite_wire : cutWrite.session.wire =
    [] ++ Utf8.encode ((openInquiry {}).line 1) ++ frame ((openInquiry {}).line 2) := rfl

/-- Both requests are one line. -/
theorem whole_messages_of_cut_write :
    let first := Utf8.encode ((openInquiry {}).line 1)
    let second := Utf8.encode ((openInquiry {}).line 2)
    ended cutWrite.session.wire = [first ++ second] ∧
      ∃ h ps, Run {} h ∧ h.now.conn = cutWrite.session.conn ∧
        ps.map (fun p : Portion => (p.message, p.done)) = h.writes ∧
        received [] ps = [first ++ second] := by
  intro first second
  have hended : ended cutWrite.session.wire = [first ++ second] := by
    rw [cutWrite_wire, List.nil_append]
    exact ended_of_merged (Json.newline_not_mem_print _) (Json.newline_not_mem_print _)
  obtain ⟨h, ps, hrun, hconn, hps, _, hreceived, _⟩ :=
    whole_messages pipes_twoPieces {} 0 rfl [{ work := .use .connect }, { work := .use .connect }]
      [.poll 0, .drop 0, .poll 1, .clock 1, .poll 1]
  rw [id_eq] at hreceived
  exact ⟨hended, h, ps, hrun, hconn, hps, hreceived.symm.trans hended⟩

end Conformance.Stdio
