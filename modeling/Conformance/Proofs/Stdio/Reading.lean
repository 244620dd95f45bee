/-
Conformance — reading does not depend on chunks and deadlines.

A stream has one account: a line for each newline in it, one more for what
follows the last newline unless there is nothing, and then its end, as often as
it is asked for.  What is read is a beginning of that account, in whatever
chunks the stream comes and wherever reads give up in between (`calls_account`);
and a read gives up only if its deadline comes before something that has yet to
arrive (`call_gives_up`).

The account is kept against the octets that a reader has not delivered, which it
holds itself or which have yet to come (`unread`).  `Delivers` is all that one
read can do to these.

A read that is dropped leaves what it has read in the reader, so it is a read
that gives up.
-/
import Conformance.Proofs.Text.Encoding
import Conformance.Stdio.Reader
import Mathlib.Data.List.ReduceOption
import Mathlib.Data.List.TakeWhile

namespace Conformance.Stdio

open Text

/-! ## The account of a stream -/

/-- The pieces of a stream between newlines; what follows the last newline is
one of them unless it is empty. -/
def pieces (bs : List UInt8) : List (List UInt8) :=
  if (splitLines bs).getLast? = some [] then (splitLines bs).dropLast else splitLines bs

/-- The first `n` items of a stream and perhaps more; a stream without an end
says nothing of what follows its last newline. -/
def account (ended : Bool) (bs : List UInt8) (n : Nat) : List (Except ClientError Incoming) :=
  if ended then (pieces bs).map lineItem ++ List.replicate n (.ok .endOfStream)
  else (splitLines bs).dropLast.map lineItem

/-! ## Cutting off a line -/

theorem cutLine_eq_none_iff {bs : List UInt8} : cutLine bs = none ↔ newline ∉ bs := by
  induction bs with
  | nil => simp [cutLine]
  | cons b bs ih =>
      rw [cutLine]
      by_cases hb : b = newline
      · simp [hb]
      · simp [hb, ih, Ne.symm hb]

theorem cutLine_append_of_some {a line behind : List UInt8} (b : List UInt8)
    (h : cutLine a = some (line, behind)) : cutLine (a ++ b) = some (line, behind ++ b) := by
  induction a generalizing line with
  | nil => exact nomatch h
  | cons x a ih =>
      rw [cutLine] at h
      rw [List.cons_append, cutLine]
      split at h
      · cases h
        rw [if_pos ‹_›]
      · obtain ⟨⟨line', behind'⟩, hcut, heq⟩ := Option.map_eq_some_iff.mp h
        cases heq
        rw [if_neg ‹_›, ih hcut]
        rfl

theorem cutLine_append_of_none {a : List UInt8} (b : List UInt8) (h : newline ∉ a) :
    cutLine (a ++ b) = (cutLine b).map fun (line, behind) => (a ++ line, behind) := by
  induction a with
  | nil => simp
  | cons x a ih =>
      obtain ⟨hx, ha⟩ := List.ne_and_not_mem_of_not_mem_cons h
      rw [List.cons_append, cutLine, if_neg (Ne.symm hx), ih ha, Option.map_map]
      rfl

theorem append_of_cutLine {bs line behind : List UInt8} (h : cutLine bs = some (line, behind)) :
    line ++ behind = bs := by
  induction bs generalizing line with
  | nil => exact nomatch h
  | cons b bs ih =>
      rw [cutLine] at h
      split at h
      · cases h
        rfl
      · obtain ⟨⟨line', behind'⟩, hcut, heq⟩ := Option.map_eq_some_iff.mp h
        cases heq
        rw [List.cons_append, ih hcut]

/-- A line that is cut off is the first piece and its newline. -/
theorem splitLines_of_cutLine {bs line behind : List UInt8}
    (h : cutLine bs = some (line, behind)) :
    ∃ piece, line = piece ++ [newline] ∧ splitLines bs = piece :: splitLines behind := by
  induction bs generalizing line with
  | nil => exact nomatch h
  | cons b bs ih =>
      rw [cutLine] at h
      split at h
      · rename_i hb
        cases h
        exact ⟨[], by rw [hb, List.nil_append], by rw [splitLines, if_pos hb]⟩
      · rename_i hb
        obtain ⟨⟨line', behind'⟩, hcut, heq⟩ := Option.map_eq_some_iff.mp h
        cases heq
        obtain ⟨piece, rfl, hsplit⟩ := ih hcut
        exact ⟨b :: piece, rfl, by rw [splitLines, if_neg hb, hsplit]⟩

theorem splitLines_of_unbroken {bs : List UInt8} (h : newline ∉ bs) : splitLines bs = [bs] := by
  induction bs with
  | nil => rfl
  | cons b bs ih =>
      obtain ⟨hb, hbs⟩ := List.ne_and_not_mem_of_not_mem_cons h
      rw [splitLines, if_neg (Ne.symm hb), ih hbs]

/-- The newline of a line is no part of its text. -/
theorem lineItem_newline (piece : List UInt8) : lineItem (piece ++ [newline]) = lineItem piece := by
  have hbare : bare (piece ++ [newline]) = bare piece := by
    rw [bare, bare, List.reverse_append, List.reverse_singleton, List.singleton_append,
      List.dropWhile_cons_of_pos (by simp)]
  rw [lineItem, lineItem, hbare]

/-! ## One read -/

/-- `Delivers ended bs x rest`: of the octets `bs` a read delivers `x`, nothing if its
deadline comes first, and leaves `rest`. -/
inductive Delivers (ended : Bool) (bs : List UInt8) :
    Option (Except ClientError Incoming) → List UInt8 → Prop
  | late : Delivers ended bs none bs
  | line {line behind : List UInt8} : cutLine bs = some (line, behind) →
      Delivers ended bs (some (lineItem line)) behind
  | last : ended = true → newline ∉ bs → bs ≠ [] → Delivers ended bs (some (lineItem bs)) []
  | spent : ended = true → bs = [] → Delivers ended bs (some (.ok .endOfStream)) []

theorem unread_of_late {ended : Bool} {bs rest : List UInt8} (h : Delivers ended bs none rest) :
    rest = bs := by
  cases h
  rfl

theorem pieces_cons {bs behind piece : List UInt8}
    (h : splitLines bs = piece :: splitLines behind) : pieces bs = piece :: pieces behind := by
  have hne : splitLines behind ≠ [] := splitLines_ne_nil behind
  rw [pieces, pieces, h, List.getLast?_cons_of_ne_nil hne, List.dropLast_cons_of_ne_nil hne]
  split <;> rfl

theorem pieces_of_unbroken {bs : List UInt8} (h : newline ∉ bs) (hne : bs ≠ []) :
    pieces bs = [bs] := by
  rw [pieces, splitLines_of_unbroken h, List.getLast?_singleton, if_neg (by simpa using hne)]

theorem pieces_nil : pieces [] = [] := rfl

theorem account_nil (n : Nat) : account true [] n = List.replicate n (.ok .endOfStream) := rfl

/-- An item that is not the end of the stream is the first of the account, and the rest of
that is the account of what is left. -/
theorem account_of_piece {ended : Bool} {bs rest : List UInt8}
    {item : Except ClientError Incoming} (h : Delivers ended bs (some item) rest)
    (hmore : bs ≠ []) (n : Nat) : account ended bs n = item :: account ended rest n := by
  cases h with
  | line hcut =>
      obtain ⟨piece, rfl, hsplit⟩ := splitLines_of_cutLine hcut
      rw [lineItem_newline]
      cases ended with
      | false =>
          simp only [account, Bool.false_eq_true, if_false, hsplit]
          rw [List.dropLast_cons_of_ne_nil (splitLines_ne_nil _), List.map_cons]
      | true => simp only [account, if_true, pieces_cons hsplit, List.map_cons, List.cons_append]
  | last hended hbs =>
      subst hended
      simp only [account, if_true, pieces_of_unbroken hbs hmore, pieces_nil, List.map_cons,
        List.cons_append]
  | spent _ hbs => exact absurd hbs hmore

/-- Where nothing is left there is the end, again and again. -/
theorem spent_of_delivers {ended : Bool} {rest : List UInt8}
    {item : Except ClientError Incoming} (h : Delivers ended [] (some item) rest) :
    ended = true ∧ item = .ok .endOfStream ∧ rest = [] := by
  cases h with
  | line hcut => exact nomatch hcut
  | last _ _ hne => exact absurd rfl hne
  | spent hended => exact ⟨hended, rfl, rfl⟩

/-- What is delivered is the first of the account, and what follows it is the account
of what is left. -/
theorem account_of_delivers {ended : Bool} {bs rest : List UInt8}
    {item : Except ClientError Incoming} (h : Delivers ended bs (some item) rest) (n : Nat) :
    item :: account ended rest n <+: account ended bs (n + 1) := by
  by_cases hmore : bs = []
  · subst hmore
    obtain ⟨rfl, rfl, rfl⟩ := spent_of_delivers h
    rw [account_nil, account_nil, List.replicate_succ]
  · rw [account_of_piece h hmore]
    refine List.cons_prefix_cons.mpr ⟨rfl, ?_⟩
    -- one end more than was asked for
    simp only [account]
    split
    · rw [List.replicate_succ', ← List.append_assoc]
      exact List.prefix_append _ _
    · exact List.prefix_rfl

/-- A line that is delivered leaves less. -/
theorem length_of_delivers {ended : Bool} {bs rest : List UInt8}
    {item : Except ClientError Incoming} (h : Delivers ended bs (some item) rest)
    (hmore : bs ≠ []) : rest.length < bs.length := by
  cases h with
  | line hcut =>
      obtain ⟨piece, rfl, _⟩ := splitLines_of_cutLine hcut
      have hlength := congrArg List.length (append_of_cutLine hcut)
      simp only [List.length_append, List.length_singleton] at hlength
      omega
  | last | spent => exact List.length_pos_iff.mpr hmore

theorem not_end_of_delivers {ended : Bool} {bs rest : List UInt8}
    {item : Except ClientError Incoming} (h : Delivers ended bs (some item) rest)
    (hmore : bs ≠ []) : item ≠ .ok .endOfStream := by
  have hline : ∀ octets, lineItem octets ≠ .ok .endOfStream := by
    intro octets
    rw [lineItem]
    split <;> exact nofun
  cases h with
  | line | last => exact hline _
  | spent _ hbs => exact absurd hbs hmore

/-- A call of a read: when it comes, and when it gives up.  A call that is dropped gives up. -/
structure Call where
  now : Instant
  deadline : Option Instant

namespace Reader

/-- The octets that a reader has not delivered. -/
def unread (r : Reader) (chunks : List Chunk) : List UInt8 :=
  r.pending ++ r.buffer ++ chunks.flatMap (·.octets)

/-- Octets that were looked at are kept. -/
theorem unread_kept (r : Reader) (chunks : List Chunk) :
    unread { pending := r.pending ++ r.buffer, buffer := [] } chunks = r.unread chunks := by
  simp [unread]

/-- The line under way goes on with the next chunk. -/
theorem unread_next (r : Reader) (c : Chunk) (rest : List Chunk) :
    unread { pending := r.pending ++ r.buffer, buffer := c.octets } rest
      = r.unread (c :: rest) := by
  simp [unread]

theorem cutLine_unread {r : Reader} {line behind : List UInt8} (chunks : List Chunk)
    (hp : newline ∉ r.pending) (hline : cutLine r.buffer = some (line, behind)) :
    cutLine (r.unread chunks)
      = some (r.pending ++ line, unread { pending := [], buffer := behind } chunks) := by
  rw [unread, List.append_assoc, cutLine_append_of_none _ hp, cutLine_append_of_some _ hline]
  rfl

theorem unbroken_of_none {r : Reader} (hp : newline ∉ r.pending)
    (hnone : cutLine r.buffer = none) : newline ∉ r.pending ++ r.buffer := by
  rw [List.mem_append, not_or]
  exact ⟨hp, cutLine_eq_none_iff.mp hnone⟩

/-- The end of the stream. -/
theorem finish_delivers {r : Reader} (hp : newline ∉ r.pending) (hb : r.buffer = []) :
    Delivers true (r.unread []) (some r.finish.2) (r.finish.1.unread []) ∧
      newline ∉ r.finish.1.pending := by
  have hunread : r.unread [] = r.pending := by simp [unread, hb]
  rw [finish]
  split
  · rename_i hempty
    have hnil : r.unread [] = [] := by rw [hunread, List.isEmpty_iff.mp hempty]
    refine ⟨?_, hp⟩
    dsimp only
    rw [hnil]
    exact .spent rfl rfl
  · rename_i hempty
    refine ⟨?_, List.not_mem_nil⟩
    rw [hunread]
    exact .last rfl hp fun hnil => hempty (by rw [hnil]; rfl)

/-- What one read can do to the octets that are not delivered.  The induction is on
the chunks that are waited for. -/
theorem read_delivers (deadline ends : Option Instant) (chunks : List Chunk) :
    ∀ (r : Reader) (now : Instant), newline ∉ r.pending →
      Delivers ends.isSome (r.unread chunks) (r.read deadline ends now chunks).item
          ((r.read deadline ends now chunks).reader.unread
            (r.read deadline ends now chunks).rest) ∧
        newline ∉ (r.read deadline ends now chunks).reader.pending := by
  induction chunks with
  | nil =>
      intro r now hp
      rw [read]
      split
      · exact ⟨.line (cutLine_unread [] hp ‹_›), List.not_mem_nil⟩
      · have hopen := unbroken_of_none hp ‹_›
        have hlate : Delivers ends.isSome (r.unread []) none
            (unread { pending := r.pending ++ r.buffer, buffer := [] } []) := by
          rw [unread_kept]
          exact .late
        dsimp only
        split
        · exact ⟨hlate, hopen⟩
        · split
          · exact ⟨hlate, hopen⟩
          · have hfinish := finish_delivers (r := { pending := r.pending ++ r.buffer }) hopen rfl
            rw [unread_kept] at hfinish
            exact hfinish
  | cons c rest ih =>
      intro r now hp
      rw [read]
      split
      · exact ⟨.line (cutLine_unread (c :: rest) hp ‹_›), List.not_mem_nil⟩
      · have hopen := unbroken_of_none hp ‹_›
        dsimp only
        split
        · refine ⟨?_, hopen⟩
          rw [unread_kept]
          exact .late
        · have hnext := ih { pending := r.pending ++ r.buffer, buffer := c.octets }
            (max now c.time) hopen
          rw [unread_next] at hnext
          exact hnext

/-- A read gives up only at a deadline, before something that is there later; or if there
is no end to the stream and no more of it to come. -/
theorem gives_up (deadline ends : Option Instant) (chunks : List Chunk) :
    ∀ (r : Reader) (now : Instant), newline ∉ r.pending →
      (r.read deadline ends now chunks).item = none →
      (ends = none ∧ newline ∉ r.unread chunks) ∨
        ∃ d, deadline = some d ∧ ((∃ c ∈ chunks, d < c.time) ∨ ∃ t, ends = some t ∧ d < t) := by
  have hpast : ∀ t, deadline.any (· < t) = true → ∃ d, deadline = some d ∧ d < t := by
    intro t ht
    cases deadline with
    | none => cases ht
    | some d => exact ⟨d, rfl, of_decide_eq_true ht⟩
  induction chunks with
  | nil =>
      intro r now hp h
      rw [read] at h
      split at h
      · cases h
      · have hopen := unbroken_of_none hp ‹_›
        dsimp only at h
        split at h
        · exact .inl ⟨rfl, by simpa [unread] using hopen⟩
        · split at h
          · obtain ⟨d, hd, hlt⟩ := hpast _ ‹_›
            exact .inr ⟨d, hd, .inr ⟨_, rfl, hlt⟩⟩
          · cases h
  | cons c rest ih =>
      intro r now hp h
      rw [read] at h
      split at h
      · cases h
      · have hopen := unbroken_of_none hp ‹_›
        dsimp only at h
        split at h
        · obtain ⟨d, hd, hlt⟩ := hpast _ ‹_›
          exact .inr ⟨d, hd, .inl ⟨c, List.mem_cons_self, hlt⟩⟩
        · have hlater := ih { pending := r.pending ++ r.buffer, buffer := c.octets } _ hopen h
          rw [unread_next] at hlater
          rcases hlater with hnone | ⟨d, hd, ⟨c', hc', hlt⟩ | hend⟩
          · exact .inl hnone
          · exact .inr ⟨d, hd, .inl ⟨c', List.mem_cons_of_mem _ hc', hlt⟩⟩
          · exact .inr ⟨d, hd, .inr hend⟩

/-! ## One read after the other -/

/-- What calls give, one after the other. -/
def calls (ends : Option Instant) :
    Reader → List Chunk → List Call → List (Option (Except ClientError Incoming))
  | _, _, [] => []
  | r, chunks, c :: rest =>
      let result := r.read c.deadline ends c.now chunks
      result.item :: calls ends result.reader result.rest rest

/-- What calls give but for those that give up is a beginning of the account. -/
theorem calls_account (ends : Option Instant) (cs : List Call) :
    ∀ (r : Reader) (chunks : List Chunk), newline ∉ r.pending →
      (r.calls ends chunks cs).reduceOption
        <+: account ends.isSome (r.unread chunks) (r.calls ends chunks cs).reduceOption.length := by
  induction cs with
  | nil => exact fun r chunks _ => List.nil_prefix
  | cons c rest ih =>
      intro r chunks hp
      obtain ⟨hdelivers, hp'⟩ := read_delivers c.deadline ends chunks r c.now hp
      have hrest := ih _ (r.read c.deadline ends c.now chunks).rest hp'
      rw [calls]
      cases hitem : (r.read c.deadline ends c.now chunks).item with
      | none =>
          rw [hitem] at hdelivers
          rw [List.reduceOption_cons_of_none, ← unread_of_late hdelivers]
          exact hrest
      | some item =>
          rw [hitem] at hdelivers
          rw [List.reduceOption_cons_of_some, List.length_cons]
          exact (List.cons_prefix_cons.mpr ⟨rfl, hrest⟩).trans (account_of_delivers hdelivers _)

/-- The chunks that a read leaves are the last ones. -/
theorem read_rest (deadline ends : Option Instant) (chunks : List Chunk) :
    ∀ (r : Reader) (now : Instant), (r.read deadline ends now chunks).rest <:+ chunks := by
  induction chunks with
  | nil =>
      intro r now
      rw [read]
      split
      · exact List.suffix_rfl
      · dsimp only
        split
        · exact List.suffix_rfl
        · split <;> exact List.suffix_rfl
  | cons c rest ih =>
      intro r now
      rw [read]
      split
      · exact List.suffix_rfl
      · dsimp only
        split
        · exact List.suffix_rfl
        · exact (ih _ _).trans (List.suffix_cons c rest)

/-- A call gives up only before something that is there later, or if there is no end to
the stream. -/
theorem call_gives_up (ends : Option Instant) (cs : List Call) :
    ∀ (r : Reader) (chunks : List Chunk), newline ∉ r.pending →
      ∀ (i : Nat) (c : Call), cs[i]? = some c → (r.calls ends chunks cs)[i]? = some none →
        ends = none ∨
          ∃ d, c.deadline = some d ∧ ((∃ x ∈ chunks, d < x.time) ∨ ∃ t, ends = some t ∧ d < t) := by
  induction cs with
  | nil => exact fun _ _ _ _ _ hc => nomatch hc
  | cons c rest ih =>
      intro r chunks hp i c' hc hgiven
      rw [calls] at hgiven
      cases i with
      | zero =>
          cases hc
          rcases gives_up c.deadline ends chunks r c.now hp (Option.some.inj hgiven) with
            ⟨hnone, _⟩ | hlate
          · exact .inl hnone
          · exact .inr hlate
      | succ i =>
          obtain ⟨_, hp'⟩ := read_delivers c.deadline ends chunks r c.now hp
          rcases ih _ _ hp' i c' hc hgiven with hnone | ⟨d, hd, ⟨x, hx, hlt⟩ | hend⟩
          · exact .inl hnone
          · exact .inr ⟨d, hd, .inl ⟨x, (read_rest _ _ chunks r c.now).subset hx, hlt⟩⟩
          · exact .inr ⟨d, hd, .inr hend⟩

/-! ## What is foretold -/

/-- The forecast of a stream is its account, the end once.  The induction is on the fuel;
each item leaves fewer octets. -/
theorem items_account (ends : Option Instant) (fuel : Nat) :
    ∀ (r : Reader) (chunks : List Chunk) (now : Instant), newline ∉ r.pending →
      (r.unread chunks).length < fuel →
      (items ends fuel r now chunks).map (·.item) = account ends.isSome (r.unread chunks) 1 := by
  induction fuel with
  | zero => exact fun _ _ _ _ hfuel => absurd hfuel (Nat.not_lt_zero _)
  | succ fuel ih =>
      intro r chunks now hp hfuel
      obtain ⟨hdelivers, hp'⟩ := read_delivers none ends chunks r now hp
      have hlate := gives_up none ends chunks r now hp
      rw [items]
      generalize r.read none ends now chunks = result at hdelivers hp' hlate ⊢
      obtain ⟨r', rest, time, item⟩ := result
      dsimp only at hdelivers hp' hlate ⊢
      cases item with
      | none =>
          rcases hlate rfl with ⟨rfl, hopen⟩ | ⟨d, hd, _⟩
          · simp [account, splitLines_of_unbroken hopen]
          · exact nomatch hd
      | some item =>
          by_cases hmore : r.unread chunks = []
          · rw [hmore] at hdelivers ⊢
            obtain ⟨hended, rfl, _⟩ := spent_of_delivers hdelivers
            rw [hended]
            rfl
          · rw [account_of_piece hdelivers hmore]
            have hshort := length_of_delivers hdelivers hmore
            have hrest := ih r' rest time hp' (by omega)
            have hitem := not_end_of_delivers hdelivers hmore
            cases item with
            | error e => rw [← hrest, List.map_cons]
            | ok x =>
                cases x with
                | line text => rw [← hrest, List.map_cons]
                | endOfStream => exact absurd rfl hitem

/-- What is foretold is the account of the octets that are not delivered. -/
theorem arrivals_account (r : Reader) (now : Instant) (s : Stream) (hp : newline ∉ r.pending) :
    (r.arrivals now s).map (·.item) = account s.ends.isSome (r.unread s.chunks) 1 := by
  refine items_account s.ends _ r s.chunks now hp ?_
  have hlength : ∀ (chunks : List Chunk) (n : Nat),
      chunks.foldr (fun c m => c.octets.length + m) n
        = (chunks.flatMap (·.octets)).length + n := by
    intro chunks n
    induction chunks with
    | nil => simp
    | cons c rest ih =>
        rw [List.foldr_cons, ih, List.flatMap_cons, List.length_append]
        omega
  rw [Stream.itemBound, hlength, unread, List.length_append, List.length_append]
  omega

/-- After `n` lines were taken the rest of the account is foretold. -/
theorem skip_account (ends : Option Instant) (n : Nat) :
    ∀ (r : Reader) (chunks : List Chunk), newline ∉ r.pending →
      n ≤ (account ends.isSome (r.unread chunks) 0).length →
      account ends.isSome ((skip ends n r chunks).1.unread (skip ends n r chunks).2) 1
          = (account ends.isSome (r.unread chunks) 1).drop n ∧
        newline ∉ (skip ends n r chunks).1.pending := by
  induction n with
  | zero => exact fun r chunks hp _ => ⟨rfl, hp⟩
  | succ n ih =>
      intro r chunks hp hn
      obtain ⟨hdelivers, hp'⟩ := read_delivers none ends chunks r 0 hp
      have hlate := gives_up none ends chunks r 0 hp
      rw [skip]
      generalize r.read none ends 0 chunks = result at hdelivers hp' hlate ⊢
      obtain ⟨r', rest, time, item⟩ := result
      dsimp only at hdelivers hp' hlate ⊢
      cases item with
      | none =>
          rcases hlate rfl with ⟨rfl, hopen⟩ | ⟨d, hd, _⟩
          · simp [account, splitLines_of_unbroken hopen] at hn
          · exact nomatch hd
      | some item =>
          by_cases hmore : r.unread chunks = []
          · rw [hmore] at hdelivers hn
            obtain ⟨hended, _, _⟩ := spent_of_delivers hdelivers
            rw [hended, account_nil] at hn
            exact absurd hn (Nat.not_succ_le_zero n)
          · rw [account_of_piece hdelivers hmore, List.length_cons] at hn
            rw [account_of_piece hdelivers hmore, List.drop_succ_cons]
            exact ih r' rest hp' (Nat.le_of_succ_le_succ hn)

end Reader

/-! ## Pieces and items -/

theorem splitLines_cons (b : UInt8) (bs : List UInt8) :
    ∃ first rest, splitLines bs = first :: rest ∧
      splitLines (b :: bs)
        = if b = newline then [] :: first :: rest else (b :: first) :: rest := by
  cases hsplit : splitLines bs with
  | nil => exact absurd hsplit (splitLines_ne_nil bs)
  | cons first rest =>
      refine ⟨first, rest, rfl, ?_⟩
      rw [splitLines, hsplit]

/-- A stream is its pieces with a newline between each two. -/
theorem intercalate_splitLines (bs : List UInt8) :
    [newline].intercalate (splitLines bs) = bs := by
  induction bs with
  | nil => rfl
  | cons b bs ih =>
      obtain ⟨first, rest, hsplit, hcons⟩ := splitLines_cons b bs
      rw [hsplit] at ih
      rw [hcons]
      split
      · rw [List.intercalate_cons_cons, ih, ‹b = newline›]
        rfl
      · cases rest with
        | nil => simpa using ih
        | cons second rest =>
            rw [List.intercalate_cons_cons] at ih ⊢
            rw [← ih]
            rfl

theorem newline_not_mem_splitLines (bs : List UInt8) : ∀ p ∈ splitLines bs, newline ∉ p := by
  induction bs with
  | nil => simp [splitLines]
  | cons b bs ih =>
      obtain ⟨first, rest, hsplit, hcons⟩ := splitLines_cons b bs
      rw [hsplit] at ih
      rw [hcons]
      intro p hp
      split at hp
      · rcases List.mem_cons.mp hp with rfl | hp
        · exact List.not_mem_nil
        · exact ih p hp
      · rename_i hb
        rcases List.mem_cons.mp hp with rfl | hp
        · exact List.not_mem_cons_of_ne_of_not_mem (Ne.symm hb) (ih first List.mem_cons_self)
        · exact ih p (List.mem_cons_of_mem _ hp)

/-- What is taken from the end of a piece is carriage returns. -/
theorem bare_append {piece : List UInt8} (h : newline ∉ piece) :
    ∃ k, bare piece ++ List.replicate k carriageReturn = piece := by
  let ends : UInt8 → Bool := fun b => b = newline ∨ b = carriageReturn
  have hsplit : bare piece ++ (piece.reverse.takeWhile ends).reverse = piece := by
    rw [bare, ← List.reverse_append, List.takeWhile_append_dropWhile, List.reverse_reverse]
  have hall : ∀ b ∈ (piece.reverse.takeWhile ends).reverse, b = carriageReturn := by
    intro b hb
    have hmem := List.mem_reverse.mp hb
    have hend : b = newline ∨ b = carriageReturn := by
      simpa [ends] using List.mem_takeWhile_imp hmem
    refine hend.resolve_left ?_
    rintro rfl
    exact h (List.mem_reverse.mp ((List.takeWhile_prefix ends).subset hmem))
  exact ⟨_, by rw [← List.eq_replicate_of_mem hall]; exact hsplit⟩

/-- All of them are. -/
theorem bare_getLast (piece : List UInt8) : (bare piece).getLast? ≠ some carriageReturn := by
  rw [bare, List.getLast?_reverse]
  intro hhead
  have := List.head?_dropWhile_not (fun b => decide (b = newline ∨ b = carriageReturn)) piece.reverse
  rw [hhead] at this
  simp at this

/-- A piece is a line of text where the octets are those of the text. -/
theorem lineItem_eq_line_iff {piece : List UInt8} {s : String} :
    lineItem piece = .ok (.line s) ↔ Utf8.encode s = bare piece := by
  rw [lineItem, ← Utf8.decode_eq_some_iff]
  cases Utf8.decode? (bare piece) <;> simp

theorem lineItem_of_no_text {piece : List UInt8} (h : ∀ s, Utf8.encode s ≠ bare piece) :
    lineItem piece = .error (.malformed notTextReason (Utf8.decodeLossy (bare piece))) := by
  have hnone : Utf8.decode? (bare piece) = none :=
    Option.eq_none_iff_forall_ne_some.mpr fun s hs => h s (Utf8.decode_eq_some_iff.mp hs)
  rw [lineItem]
  simp only [hnone]

/-! ## The reference -/

/-- What calls of a read give, those apart that give up, is a beginning of the account
of the stream, whatever the chunks and whatever the calls that give up; and a call
gives up only if there is more to come that is there only later.  The account has an
item for each piece of the stream, in order.  A piece without the carriage returns at
its end is a line if it is a text, else an error that ends nothing.  What a stream
is foretold to deliver, before and after some of it was taken, is the same account. -/
theorem read_reference (chunks : List Chunk) (ends : Option Instant) (cs : List Call) :
    let bs := chunks.flatMap (·.octets)
    let given := Reader.calls ends {} chunks cs
    given.reduceOption <+: account ends.isSome bs given.reduceOption.length ∧
    (∀ (i : Nat) (c : Call), cs[i]? = some c → given[i]? = some none →
      ends = none ∨
        ∃ d, c.deadline = some d ∧ ((∃ x ∈ chunks, d < x.time) ∨ ∃ t, ends = some t ∧ d < t)) ∧
    ([newline].intercalate (splitLines bs) = bs ∧ ∀ p ∈ splitLines bs, newline ∉ p) ∧
    (∀ p ∈ splitLines bs,
      (∃ k, bare p ++ List.replicate k carriageReturn = p) ∧
      (bare p).getLast? ≠ some carriageReturn ∧
      (∀ s, lineItem p = .ok (.line s) ↔ Utf8.encode s = bare p) ∧
      ((∀ s, Utf8.encode s ≠ bare p) →
        ∃ e, lineItem p = .error e ∧ e.isFatal = false ∧
          e = .malformed notTextReason (Utf8.decodeLossy (bare p)))) ∧
    ∀ (now : Instant) (n : Nat), n ≤ (account ends.isSome bs 0).length →
      ((Reader.skip ends n {} chunks).1.arrivals now
          { chunks := (Reader.skip ends n {} chunks).2, ends }).map (·.item)
        = (account ends.isSome bs 1).drop n := by
  have hstart : newline ∉ ({} : Reader).pending := List.not_mem_nil
  refine ⟨Reader.calls_account ends cs {} chunks hstart,
    Reader.call_gives_up ends cs {} chunks hstart,
    ⟨intercalate_splitLines _, newline_not_mem_splitLines _⟩, ?_, ?_⟩
  · intro p hp
    refine ⟨bare_append (newline_not_mem_splitLines _ p hp), bare_getLast p,
      fun s => lineItem_eq_line_iff, fun hno => ?_⟩
    exact ⟨_, lineItem_of_no_text hno, rfl, rfl⟩
  · intro now n hn
    obtain ⟨hrest, hpending⟩ := Reader.skip_account ends n {} chunks hstart hn
    rw [Reader.arrivals_account _ now _ hpending]
    exact hrest

/-- A line that comes in two chunks is read by the third call, the first two having given
up; the next one is no text; the last one has no newline. -/
theorem read_reference_of_split_line :
    let chunks : List Chunk :=
      [⟨0, [0x61]⟩, ⟨5, [0x62, carriageReturn, newline, 0xFF, newline, 0x63]⟩]
    let cs : List Call := [⟨0, some 1⟩, ⟨1, some 4⟩, ⟨4, none⟩, ⟨5, none⟩, ⟨5, none⟩, ⟨7, none⟩]
    let given := Reader.calls (some 7) {} chunks cs
    given.reduceOption =
        [.ok (.line "ab"), .error (.malformed notTextReason "\uFFFD"), .ok (.line "c"),
          .ok .endOfStream] ∧
      given.reduceOption <+: account true (chunks.flatMap (·.octets)) 4 ∧
      ∃ d, (∃ x ∈ chunks, d < x.time) ∨ d < 7 := by
  intro chunks cs given
  have hgiven : given = [none, none, some (.ok (.line "ab")),
      some (.error (.malformed notTextReason "\uFFFD")), some (.ok (.line "c")),
      some (.ok .endOfStream)] := by
    have hab : lineItem [0x61, 0x62, carriageReturn, newline] = .ok (.line "ab") :=
      lineItem_eq_line_iff.mpr rfl
    have hbroken : lineItem [0xFF, newline] = .error (.malformed notTextReason "\uFFFD") := by
      have hbare : bare [0xFF, newline] = [0xFF] := rfl
      rw [lineItem, hbare, Utf8.decode?, Utf8.decodeLossy, Utf8.pieces_beyond (by decide),
        Utf8.pieces]
      rfl
    have hc : lineItem [0x63] = .ok (.line "c") := lineItem_eq_line_iff.mpr rfl
    rw [← hab, ← hbroken, ← hc]
    simp [given, cs, chunks, Reader.calls, Reader.read, cutLine, Reader.finish, newline,
      carriageReturn]
  have hshort : given.reduceOption = [.ok (.line "ab"), .error (.malformed notTextReason "\uFFFD"),
      .ok (.line "c"), .ok .endOfStream] := by
    rw [hgiven]
    rfl
  obtain ⟨hinitial, hlate, _⟩ := read_reference chunks (some 7) cs
  change given.reduceOption <+: account true _ given.reduceOption.length at hinitial
  refine ⟨hshort, by rw [hshort] at hinitial ⊢; exact hinitial, ?_⟩
  rcases hlate 1 ⟨1, some 4⟩ rfl (congrArg (·[1]?) hgiven) with hno | ⟨d, _, hwaits | ⟨t, ht, hlt⟩⟩
  · cases hno
  · exact ⟨d, .inl hwaits⟩
  · cases ht
    exact ⟨d, .inr hlt⟩

end Conformance.Stdio
