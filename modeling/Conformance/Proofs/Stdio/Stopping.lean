/-
Conformance — what a stop leaves behind.

A link may be written to, read from, looked at and stopped in any order, and at
each use the world is free: whether the process has ended by then, what its pipe
answers, what its output delivers, how the attempts to end it turn out.

The first stop is the only one that does anything.  Nothing is written after it,
the server is not there, and a further stop sends no signal and succeeds.  To
read is another matter: a stop closes the output when the process is done with.  Where the
process outlives its grace and its kill fails, the stop returns before that step,
and it may be dropped before; no later stop makes up for it, and reading goes
on as if nothing had been stopped.  `stop_final` says that this is all that is
left, and when.

On a machine no kill fails, so there nothing more comes of a server after a stop
that is not dropped (`Machine.Server.probes_of_stop`).
-/
import Conformance.Machine.Server
import Conformance.Proofs.Stdio.Reading
import Mathlib.Data.List.Forall2

namespace Conformance.Stdio.Link

/-! ## Uses of a link -/

/-- One thing done with a link, with all that it meets. -/
inductive Use where
  | write (exited : Option ExitStatus) (pipe : Except PipeError Unit)
  | read (now : Instant) (limit : Duration) (output : Stream)
  | connected (exited : Option ExitStatus)
  | stop (attempts : Attempts)
  /-- A stop that is dropped before it closes the output. -/
  | drop
  /-- A stop that is dropped after that. -/
  | dropLate

/-- What comes of a use. -/
inductive Answer where
  | wrote (result : Except ClientError Unit)
  | got (item : Except ClientError Incoming)
  | connected (b : Bool)
  | stopped (signals : List Signal) (result : Except ClientError Unit)
  | dropped

/-- Does one thing. -/
def use (l : Link) : Use → Link × Answer
  | .write exited pipe => (l, .wrote (l.write exited pipe))
  | .read now limit output =>
      match l.output with
      | .error e => (l, .got (.error e))
      | .ok r =>
          let result := r.read (some (now + limit)) output.ends now output.chunks
          ({ l with reader := some result.reader },
            .got (result.item.getD (.error (.readTimeout limit))))
  | .connected exited => (l, .connected (l.isConnected exited))
  | .stop a =>
      let (l, signals, result) := l.stop a
      (l, .stopped signals result)
  | .drop => (l.stopDropped, .dropped)
  | .dropLate => (l.stopDroppedLate, .dropped)

/-- The link after one thing was done after the other. -/
def after (l : Link) (uses : List Use) : Link := uses.foldl (fun l u => (l.use u).1) l

namespace Use

def reads : Use → Bool
  | read .. => true
  | _ => false

def stops : Use → Bool
  | stop _ | drop | dropLate => true
  | _ => false

/-- What comes of a use when all is over. -/
def refusal : Use → Answer
  | write .. => .wrote (.error stoppedError)
  | read .. => .got (.error stoppedError)
  | connected _ => .connected false
  | stop _ => .stopped [] (.ok ())
  | drop | dropLate => .dropped

end Use

namespace Attempts

variable {a : Attempts}

/-- The process had ended before it was asked to. -/
def Ended (a : Attempts) : Prop := ∃ status, a.check = .ok (some status)

/-- The process had not ended when its grace was over. -/
def Outlived (a : Attempts) : Prop := ¬ a.Ended ∧ a.wait = none

theorem run_of_ended (h : a.Ended) : a.run = ([], .ok ()) := by
  obtain ⟨status, hcheck⟩ := h
  rw [run, hcheck]

/-- A process that has not ended, or of which nothing could be learned, is asked to end;
it is killed unless its end is seen. -/
theorem run_of_not_ended (h : ¬ a.Ended) :
    a.run = match a.wait with
      | some (.ok _) => ([.term], .ok ())
      | some (.error _) => ([.term, .kill], .ok ())
      | none => ([.term, .kill], a.kill.mapError .io) := by
  obtain ⟨check, wait, kill⟩ := a
  have hcheck : run { check, wait, kill } = run { check := .ok none, wait, kill } := by
    match check with
    | .ok (some status) => exact absurd ⟨status, rfl⟩ h
    | .ok none | .error _ => rfl
  rw [hcheck]
  rcases wait with _ | _ | _
  · cases kill <;> rfl
  · rfl
  · rfl

theorem run_of_outlived (h : a.Outlived) :
    a.run = ([.term, .kill], a.kill.mapError .io) := by
  rw [run_of_not_ended h.1, h.2]

theorem term_first_of_run (h : ¬ a.Ended) : a.run.1.head? = some .term := by
  rw [run_of_not_ended h]
  split <;> rfl

/-- The attempts fail just if the kill of a process that outlived its grace does. -/
theorem run_error_iff {e : ClientError} :
    a.run.2 = .error e ↔ a.Outlived ∧ ∃ cause, a.kill = .error cause ∧ e = .io cause := by
  constructor
  · intro h
    have hended : ¬ a.Ended := fun hended => by
      rw [run_of_ended hended] at h
      cases h
    have hwait : a.wait = none := by
      rw [run_of_not_ended hended] at h
      split at h
      · cases h
      · cases h
      · assumption
    rw [run_of_outlived ⟨hended, hwait⟩] at h
    cases hkill : a.kill with
    | ok _ =>
        rw [hkill] at h
        cases h
    | error cause =>
        rw [hkill] at h
        cases h
        exact ⟨⟨hended, hwait⟩, cause, rfl, rfl⟩
  · rintro ⟨houtlived, cause, hkill, rfl⟩
    rw [run_of_outlived houtlived, hkill]
    rfl

end Attempts

/-! ## Before the first stop -/

variable {l m : Link} {u : Use}

/-- No stop was asked for. -/
def Running (l : Link) : Prop := l.stopped = false ∧ l.holding = true

theorem running_of_use (h : l.Running) (hu : u.stops = false) : (l.use u).1.Running := by
  cases u with
  | write | connected => exact h
  | read now limit output =>
      rw [use]
      split <;> exact h
  | stop | drop | dropLate => cases hu

theorem running_of_after {uses : List Use} (h : l.Running) (hu : ∀ u ∈ uses, u.stops = false) :
    (l.after uses).Running := by
  induction uses generalizing l with
  | nil => exact h
  | cons u uses ih =>
      exact ih (running_of_use h (hu u List.mem_cons_self))
        fun v hv => hu v (List.mem_cons_of_mem u hv)

/-! ## The first stop -/

/-- A stop that does not get as far as the output: its kill fails, or it is dropped before. -/
def Use.CutShort : Use → Prop
  | stop a => a.Outlived ∧ ∃ cause, a.kill = .error cause
  | drop => True
  | _ => False

theorem stop_of_running (h : l.Running) (a : Attempts) : (l.stop a).2 = a.run := by
  rw [stop, if_neg (by rw [h.1]; decide)]
  simp only [h.2, if_true]
  obtain ⟨signals, result⟩ := a.run
  cases result <;> rfl

theorem stopped_of_stops (hu : u.stops = true) : (l.use u).1.stopped = true := by
  cases u with
  | stop a =>
      by_cases h : l.stopped = true
      · simp only [use, stop, h, if_true]
      · simp only [use, stop, if_neg h]
        split <;> rfl
  | drop =>
      rw [use, stopDropped]
      split
      · assumption
      · rfl
  | dropLate =>
      by_cases h : l.stopped = true
      · rw [use, stopDroppedLate, if_pos h, h]
      · rw [use, stopDroppedLate, if_neg h, stopDropped, if_neg h]
  | write | read | connected => cases hu

/-- A stop that is cut short leaves the output as it is. -/
theorem reader_of_cutShort (h : l.Running) (hu : u.CutShort) : (l.use u).1.reader = l.reader := by
  cases u with
  | stop a =>
      obtain ⟨houtlived, cause, hkill⟩ := hu
      simp only [use, stop, h.1, h.2, if_true, Bool.false_eq_true, if_false,
        Attempts.run_of_outlived houtlived, hkill, Except.mapError]
  | drop =>
      rw [use, stopDropped, if_neg (by rw [h.1]; decide)]
  | dropLate | write | read | connected => cases hu

/-- Any other closes it. -/
theorem reader_of_complete (h : l.Running) (hu : u.stops = true) (hcut : ¬ u.CutShort) :
    (l.use u).1.reader = none := by
  cases u with
  | stop a =>
      cases hresult : a.run.2 with
      | ok _ =>
          simp only [use, stop, h.1, h.2, if_true, Bool.false_eq_true, if_false, hresult]
      | error e =>
          obtain ⟨houtlived, cause, hkill, _⟩ := Attempts.run_error_iff.mp hresult
          exact absurd ⟨houtlived, cause, hkill⟩ hcut
  | drop => exact absurd trivial hcut
  | dropLate => rw [use, stopDroppedLate, if_neg (by rw [h.1]; decide)]
  | write | read | connected => cases hu

/-! ## After a stop -/

theorem write_of_stopped (h : l.stopped = true) (exited : Option ExitStatus)
    (pipe : Except PipeError Unit) : l.write exited pipe = .error stoppedError :=
  if_pos h

theorem isConnected_of_stopped (h : l.stopped = true) (exited : Option ExitStatus) :
    l.isConnected exited = false := by
  rw [isConnected, h, Bool.not_true, Bool.false_and, Bool.false_and]

theorem stop_of_stopped (h : l.stopped = true) (a : Attempts) : l.stop a = (l, [], .ok ()) :=
  if_pos h

/-- Whatever is not a read is refused, and changes nothing. -/
theorem use_of_stopped (h : l.stopped = true) (hu : u.reads = false) :
    l.use u = (l, u.refusal) := by
  cases u with
  | write exited pipe => rw [use, write_of_stopped h, Use.refusal]
  | connected exited => rw [use, isConnected_of_stopped h, Use.refusal]
  | stop a => rw [use, stop_of_stopped h, Use.refusal]
  | drop => rw [use, stopDropped, if_pos h, Use.refusal]
  | dropLate => rw [use, stopDroppedLate, if_pos h, Use.refusal]
  | read => cases hu

/-- A read sees nothing of a link but its output. -/
theorem use_of_reads (hu : u.reads = true) (h : l.reader = m.reader) :
    (l.use u).2 = (m.use u).2 ∧ (l.use u).1.reader = (m.use u).1.reader ∧
      (l.use u).1.stopped = l.stopped := by
  cases u with
  | read now limit output =>
      rw [use, use, Link.output, Link.output, ← h]
      cases hreader : l.reader with
      | none => exact ⟨rfl, h, rfl⟩
      | some r => exact ⟨rfl, rfl, rfl⟩
  | write | connected | stop | drop | dropLate => cases hu

/-- A stopped link is stopped for good, and of all that is done with it only reads
make a difference. -/
theorem after_of_stopped {uses : List Use} (h : l.stopped = true) (hr : l.reader = m.reader) :
    (l.after uses).stopped = true ∧
      (l.after uses).reader = (m.after (uses.filter Use.reads)).reader := by
  induction uses generalizing l m with
  | nil => exact ⟨h, hr⟩
  | cons u uses ih =>
      cases hu : u.reads with
      | true =>
          obtain ⟨_, hr', hstopped⟩ := use_of_reads hu hr
          rw [List.filter_cons_of_pos hu]
          exact ih (hstopped.trans h) hr'
      | false =>
          have hsame : (l.use u).1 = l := by rw [use_of_stopped h hu]
          rw [List.filter_cons_of_neg (by rw [hu]; decide), after, List.foldl_cons, hsame]
          exact ih h hr

/-- A stopped link with its output closed. -/
structure Closed (l : Link) : Prop where
  stopped : l.stopped = true
  reader : l.reader = none

/-- Nothing makes a difference to it. -/
theorem use_of_closed (h : l.Closed) (u : Use) : l.use u = (l, u.refusal) := by
  cases hu : u.reads with
  | true =>
      cases u with
      | read => rw [use, output, h.reader, Use.refusal]
      | write | connected | stop | drop | dropLate => cases hu
  | false => exact use_of_stopped h.stopped hu

theorem after_of_closed (h : l.Closed) (uses : List Use) : l.after uses = l := by
  induction uses with
  | nil => rfl
  | cons u uses ih => rwa [after, List.foldl_cons, use_of_closed h]

/-! ## To stop is final -/

/-- What a stop tells of its attempts. -/
structure Attempts.Told (a : Attempts) (signals : List Signal)
    (result : Except ClientError Unit) : Prop where
  ended : a.Ended → signals = []
  asked : ¬ a.Ended → signals.head? = some .term
  outlived : a.Outlived → signals = [.term, .kill]
  failed : ∀ e, result = .error e ↔
    a.Outlived ∧ ∃ cause, a.kill = .error cause ∧ e = .io cause

theorem Attempts.told_run (a : Attempts) : a.Told a.run.1 a.run.2 where
  ended h := by rw [run_of_ended h]
  asked := term_first_of_run
  outlived h := by rw [run_of_outlived h]
  failed _ := run_error_iff

/-- For every order of uses, let `s` be the first that stops the link.  It tells the
signals that it sent, and fails just if its kill does.  Whatever is done with the link
afterwards is refused, later stops without a signal; but where `s` was cut short reads
get what they would if there had been nothing but reads. -/
theorem stop_final (before after : List Use) (s u : Use)
    (hbefore : ∀ v ∈ before, v.stops = false) (hs : s.stops = true) :
    let l := Link.after {} before
    let m := (l.use s).1.after after
    (∀ a, s = .stop a →
      ∃ signals result, (l.use s).2 = .stopped signals result ∧ a.Told signals result) ∧
    (¬ (u.reads = true ∧ s.CutShort) → (m.use u).2 = u.refusal) ∧
    (u.reads = true → s.CutShort →
      (m.use u).2 = ((l.after (after.filter Use.reads)).use u).2) := by
  intro l m
  have hrunning : l.Running := running_of_after ⟨rfl, rfl⟩ hbefore
  have hstopped : (l.use s).1.stopped = true := stopped_of_stops hs
  refine ⟨?_, ?_, ?_⟩
  · rintro a rfl
    have hanswer : (l.use (.stop a)).2 = .stopped (l.stop a).2.1 (l.stop a).2.2 := rfl
    rw [stop_of_running hrunning] at hanswer
    exact ⟨_, _, hanswer, a.told_run⟩
  · intro h
    cases hu : u.reads with
    | true =>
        have hclosed : (l.use s).1.Closed :=
          ⟨hstopped, reader_of_complete hrunning hs fun hcut => h ⟨hu, hcut⟩⟩
        simp only [m, after_of_closed hclosed, use_of_closed hclosed]
    | false =>
        have hm : m.stopped = true := (after_of_stopped hstopped rfl).1
        rw [use_of_stopped hm hu]
  · intro hu hcut
    have hreader := reader_of_cutShort hrunning hcut
    exact (use_of_reads hu (after_of_stopped hstopped hreader).2).1

/-! ### A line that outlives two stops -/

/-- A process that may not be signalled. -/
def unkillable : Attempts :=
  { check := .ok none, wait := none, kill := .error "Operation not permitted (os error 1)" }

/-- A read that comes upon two lines, and takes the first. -/
def readTwo : Use := .read 0 5 { chunks := [⟨1, [0x61, 0x0A, 0x62, 0x0A]⟩], ends := none }

/-- A read that comes upon nothing new. -/
def readMore : Use := .read 9 1 { chunks := [], ends := none }

/-- The kill fails, or the stop is dropped; a second stop succeeds, and the line that
was there before is read. -/
theorem stop_final_of_line_left :
    let l := Link.after {} [readTwo]
    let failed := (l.use (.stop unkillable)).1.after [.stop unkillable]
    let dropped := (l.use .drop).1.after [.stop unkillable]
    (∃ signals result, (l.use (.stop unkillable)).2 = .stopped signals result ∧
        signals = [.term, .kill] ∧ result ≠ .ok ()) ∧
      ((l.use .drop).1.use (.stop unkillable)).2 = .stopped [] (.ok ()) ∧
      (failed.use readMore).2 = .got (.ok (.line "b")) ∧
      (dropped.use readMore).2 = .got (.ok (.line "b")) ∧
      (failed.use (.connected none)).2 = .connected false := by
  intro l failed dropped
  have hbefore : ∀ v ∈ [readTwo], v.stops = false := by simp [readTwo, Use.stops]
  have houtlived : unkillable.Outlived := by
    refine ⟨?_, rfl⟩
    rintro ⟨status, hcheck⟩
    cases hcheck
  have hcut : (Use.stop unkillable).CutShort := ⟨houtlived, _, rfl⟩
  have hline : (l.use readMore).2 = .got (.ok (.line "b")) := by
    have hb : lineItem [0x62, 0x0A] = .ok (.line "b") := lineItem_eq_line_iff.mpr rfl
    have hfirst : Reader.read (some 5) none {} 0 [⟨1, [0x61, 0x0A, 0x62, 0x0A]⟩]
        = { reader := { buffer := [0x62, 0x0A] }, rest := [], time := 1
            item := some (lineItem [0x61, 0x0A]) } := by
      simp [Reader.read, cutLine, Text.newline]
    have hnext : Reader.read (some 10) none { buffer := [0x62, 0x0A] } 9 []
        = { reader := {}, rest := [], time := 9, item := some (lineItem [0x62, 0x0A]) } := by
      simp [Reader.read, cutLine, Text.newline]
    have hleft : l = { reader := some { buffer := [0x62, 0x0A] } } := by
      simp only [l, after, List.foldl_cons, List.foldl_nil, use, output, readTwo, Nat.zero_add,
        hfirst]
    rw [hleft, readMore, use]
    simp only [output, hnext, hb]
    rfl
  obtain ⟨htold, _, hread⟩ :=
    stop_final [readTwo] [.stop unkillable] (.stop unkillable) readMore hbefore rfl
  obtain ⟨_, _, hdropped⟩ := stop_final [readTwo] [.stop unkillable] .drop readMore hbefore rfl
  obtain ⟨_, hagain, _⟩ := stop_final [readTwo] [] .drop (.stop unkillable) hbefore rfl
  obtain ⟨_, hgone, _⟩ :=
    stop_final [readTwo] [.stop unkillable] (.stop unkillable) (.connected none) hbefore rfl
  refine ⟨?_, hagain (fun h => by cases h.1), (hread rfl hcut).trans hline,
    (hdropped rfl trivial).trans hline, hgone (fun h => by cases h.1)⟩
  obtain ⟨signals, result, hstop, hwas⟩ := htold unkillable rfl
  refine ⟨signals, result, hstop, hwas.outlived houtlived, ?_⟩
  rw [(hwas.failed _).mpr ⟨houtlived, _, rfl, rfl⟩]
  intro hok
  cases hok

end Conformance.Stdio.Link

namespace Conformance.Machine

open Stdio (Link stoppedError)

/-- What comes of a probe of a server that is over, where that is settled. -/
def Probe.refusal : Probe → Option Probed
  | write _ | read _ => some (.failed stoppedError)
  | connected | awaitEnd => some (.connected false)
  | stop _ => some .done
  | hasNumber | awaitComplaint _ => none

namespace Server

variable {s : Server} {now : Instant}

/-! ## On a machine -/

/-- No kill fails. -/
theorem kill_of_endProcess (p : Process) (now : Instant) (grace : Duration) :
    (endProcess p now grace).2.2.kill = .ok () := by
  rw [endProcess]
  split
  · rfl
  · dsimp only
    split <;> rfl

/-- A stop that is not dropped closes the link. -/
theorem closed_of_stop (h : s.link.Running) (grace : Duration) :
    (s.stop now grace).result = .ok () ∧ (s.stop now grace).after.link.Closed := by
  have hkill := kill_of_endProcess (s.advance now).process now grace
  have hrunning : ¬ (s.advance now).link.stopped = true := by
    rw [show (s.advance now).link = s.link from rfl, h.1]
    decide
  rw [stop, if_neg hrunning]
  generalize endProcess (s.advance now).process now grace = ending at hkill ⊢
  obtain ⟨process, ends, attempts⟩ := ending
  have hcut : ¬ (Link.Use.stop attempts).CutShort := by
    rintro ⟨_, cause, hfails⟩
    rw [hkill] at hfails
    cases hfails
  refine ⟨?_, Link.stopped_of_stops (u := .stop attempts) rfl,
    Link.reader_of_complete (u := .stop attempts) h rfl hcut⟩
  change (s.link.stop attempts).2.2 = .ok ()
  rw [Link.stop_of_running h]
  cases hresult : attempts.run.2 with
  | ok _ => rfl
  | error e =>
      obtain ⟨houtlived, cause, hfails, _⟩ := Link.Attempts.run_error_iff.mp hresult
      exact absurd ⟨houtlived, cause, hfails⟩ hcut

theorem waitFor_link (holds : Server → Bool) (n : Nat) :
    (waitFor holds n now s).2.link = s.link := by
  induction n generalizing now s with
  | zero => rfl
  | succ n ih =>
      rw [waitFor]
      split
      · rfl
      · exact ih

/-- A probe of a closed server is refused, and leaves it closed. -/
theorem probe_of_closed (h : s.link.Closed) (now : Instant) (p : Probe) :
    (s.probe now p).2.1.link.Closed ∧ ∀ r ∈ p.refusal, (s.probe now p).2.2 = r := by
  cases p with
  | write line =>
      have hwrite : s.write now line = .at now ((s.advance now).notice, .error stoppedError) := by
        simp only [write, Link.write_of_stopped (l := (s.advance now).link) h.stopped]
      rw [probe, hwrite]
      exact ⟨h, by simp [Probe.refusal, Sending.at]⟩
  | read limit =>
      have hread : s.read now limit = (now, s, .failed stoppedError) := by
        rw [read, Link.output, h.reader]
      rw [probe, hread]
      exact ⟨h, by simp [Probe.refusal]⟩
  | connected =>
      refine ⟨h, ?_⟩
      rw [probe, connected, Link.isConnected_of_stopped (l := (s.advance now).link) h.stopped]
      simp [Probe.refusal]
  | hasNumber => exact ⟨h, by simp [Probe.refusal]⟩
  | stop grace =>
      have hstop : s.stop now grace =
          { ends := now, after := s.advance now, result := .ok (), dropped := s.advance now } :=
        if_pos h.stopped
      rw [probe, hstop]
      exact ⟨h, by simp [Probe.refusal]⟩
  | awaitEnd =>
      rw [probe]
      generalize hgone : waitFor _ lookBound now s = gone
      have hlink : gone.2.link = s.link := by rw [← hgone, waitFor_link]
      have hclosed : gone.2.link.Closed := by rwa [hlink]
      refine ⟨hclosed, ?_⟩
      dsimp only
      rw [Link.isConnected_of_stopped hclosed.stopped]
      simp [Probe.refusal]
  | awaitComplaint last =>
      rw [probe]
      exact ⟨by rw [waitFor_link]; exact h, by simp [Probe.refusal]⟩

/-- The probes of a closed server are refused, in any order. -/
theorem probes_of_closed (h : s.link.Closed) (ps : List Probe) :
    List.Forall₂ (fun p r => ∀ x ∈ p.refusal, r = x) ps (s.probes now ps) := by
  induction ps generalizing s now with
  | nil => exact .nil
  | cons p ps ih =>
      obtain ⟨hclosed, hrefused⟩ := probe_of_closed h now p
      exact .cons hrefused (ih hclosed)

/-- After a stop that is not dropped nothing more comes of a server. -/
theorem probes_of_stop (h : s.link.Running) (grace : Duration) (ps : List Probe) :
    List.Forall₂ (fun p r => ∀ x ∈ p.refusal, r = x) ps
      ((s.stop now grace).after.probes (s.stop now grace).ends ps) :=
  probes_of_closed (closed_of_stop h grace).2 ps

end Server

end Conformance.Machine
