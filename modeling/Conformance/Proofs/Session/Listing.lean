/-
Conformance — which tools a listing returns.

Said of the result alone: `Lists v ts` holds of the tools that a result names, one for each entry
of `tools`, in the order of the entries.  A result need not be an object, and `tools` may be
missing or `null`; then there are none.

`listing_outcome` says that a listing returns these tools and no others, for every response that
it can receive in any run.  What names no tools in that sense, for one entry that is no tool or
for a `tools` that is no list, fails the listing as a whole; the session stays open in each case.
-/
import Conformance.Proofs.Session.Acceptance

namespace Conformance

open Wire (Record RpcError Response Tool)

/-! ## Results -/

/-- The result names the tools `ts`. -/
inductive Lists : Json → List Tool → Prop
  | nothing {v : Json} :
      (∀ ms, v = .obj ms → ms.lookup "tools" = none ∨ ms.lookup "tools" = some .null) → Lists v []
  | entries {ms : List (String × Json)} {xs : List Json} {ts : List Tool} :
      ms.lookup "tools" = some (.arr xs) →
      List.Forall₂ (Record Tool.fields Tool.Reads) xs ts → Lists (.obj ms) ts

section Response

variable {r : Response} {v w : Json} {ts : List Tool}

/-- A result names no tools when it has no `tools`. -/
theorem toolless_iff :
    (∀ ms, v = .obj ms → ms.lookup "tools" = none ∨ ms.lookup "tools" = some .null) ↔
      v.get? "tools" = none ∨ v.get? "tools" = some .null := by
  cases v with
  | obj ms => exact ⟨fun h => h ms rfl, fun h _ hms => by cases hms; exact h⟩
  | null | bool | num | str | arr => exact iff_of_true nofun (.inl rfl)

/-- Other than that its `tools` must be a list of tools. -/
theorem lists_iff_of_get (hw : v.get? "tools" = some w) (hne : w ≠ .null) :
    Lists v ts ↔ Wire.sequence Tool.decode w = .ok ts := by
  simp only [Wire.sequence_eq_ok_iff, Tool.decode_eq_ok_iff]
  constructor
  · intro h
    cases h with
    | nothing hnone =>
        rcases toolless_iff.mp hnone with h | h
        · exact nomatch hw.symm.trans h
        · exact absurd (Option.some.inj (hw.symm.trans h)) hne
    | entries htools hreads => exact ⟨_, Option.some.inj (hw.symm.trans htools), hreads⟩
  · rintro ⟨xs, rfl, hreads⟩
    cases v with
    | obj ms => exact .entries hw hreads
    | null | bool | num | str | arr => exact nomatch hw

theorem lists_iff_of_nothing (hv : v.get? "tools" = none ∨ v.get? "tools" = some .null) :
    Lists v ts ↔ ts = [] := by
  constructor
  · intro h
    cases h with
    | nothing => rfl
    | entries htools =>
        rcases hv with h | h
        · exact nomatch htools.symm.trans h
        · exact nomatch htools.symm.trans h
  · rintro rfl
    exact .nothing (toolless_iff.mpr hv)

/-- The fault of a result that names no list of tools. -/
def ListingFault (v : Json) (e : ClientError) : Prop :=
  ∃ w cause, v.get? "tools" = some w ∧ e = .malformed ("invalid tools list: " ++ cause) w.print

/-- A result gives the tools that it names, or else a fault. -/
theorem toolsOf_of_result (hr : r.outcome = .ok v) :
    (∃ ts, toolsOf r = .ok ts ∧ ∀ ts', Lists v ts' ↔ ts' = ts) ∨
      ∃ e, toolsOf r = .error e ∧ ListingFault v e ∧ ∀ ts, ¬ Lists v ts := by
  by_cases hnothing : v.get? "tools" = none ∨ v.get? "tools" = some .null
  · refine .inl ⟨[], ?_, fun ts' => lists_iff_of_nothing hnothing⟩
    rcases hnothing with h | h <;> simp only [toolsOf, hr, h]
  · obtain ⟨hsome, hne⟩ := not_or.mp hnothing
    obtain ⟨w, hw⟩ := Option.ne_none_iff_exists'.mp hsome
    have hnull : w ≠ .null := fun h => hne (h ▸ hw)
    have hlists : ∀ ts, Lists v ts ↔ Wire.sequence Tool.decode w = .ok ts := fun ts =>
      lists_iff_of_get hw hnull
    cases hdecode : Wire.sequence Tool.decode w with
    | ok ts =>
        refine .inl ⟨ts, ?_, fun ts' => ?_⟩
        · simp only [toolsOf, hr, hw, hdecode]
        · rw [hlists, hdecode, Except.ok.injEq, eq_comm]
    | error e =>
        refine .inr ⟨.malformed ("invalid tools list: " ++ e.message) w.print, ?_,
          ⟨w, e.message, hw, rfl⟩, fun ts h => ?_⟩
        · simp only [toolsOf, hr, hw, hdecode]
        · cases hdecode.symm.trans ((hlists ts).mp h)

end Response

/-! ## Listings -/

open Client

variable {o : ClientOptions} {h : History} {id : Nat} {text : String} {r : Response}

/-- A listing awaits its response in an open session. -/
theorem ready_of_listing (hrun : Run o h) (hp : h.now.phase = some (.await .listing id)) :
    h.now.conn.state = .ready := by
  have hfits := fits_of_run hrun
  rwa [Fits, hp] at hfits

theorem shape_of_accepts (ha : Accepts id text r) : r.misshape = none := by
  have hjudge : judge id none 0 (.ok (.line text)) = some (.answer r) := judge_eq_answer_iff.mpr ha
  cases judge_eq_some_iff.mp hjudge with
  | answer _ _ hs => exact hs

/-- What a listing hears ends it, once it is taken for its response. -/
theorem step_of_listing (hp : h.now.phase = some (.await .listing id)) (ha : Accepts id text r) :
    h.now.step o (.heard (.ok (.line text)))
      = some ({ conn := { h.now.conn with inFlight := none } }, some ((toolsOf r).map .tools)) := by
  rw [step_heard hp, judge_eq_answer_iff.mpr ha]
  rfl

/-- A listing that has its response ends, and the session stays open.  An error is returned as it
is.  A result gives the tools that it names, whatever else is in it: one for each entry, in order.
One that names none, in that sense, is reported, and no tools are returned. -/
theorem listing_outcome (hrun : Run o h) (hp : h.now.phase = some (.await .listing id))
    (ha : Accepts id text r) :
    ∃ s' out, h.now.step o (.heard (.ok (.line text))) = some (s', some out) ∧
      s'.phase = none ∧ s'.conn = { h.now.conn with inFlight := none } ∧ s'.conn.state = .ready ∧
      ((∃ e, r.error = some e ∧ r.result = none ∧ out = .error (.rpc e)) ∨
        ∃ v, r.result = some v ∧ r.error = none ∧ (∀ ts, out = .ok (.tools ts) ↔ Lists v ts) ∧
          ((∀ ts, ¬ Lists v ts) → ∃ e, out = .error e ∧ ListingFault v e ∧ e.isFatal = false)) := by
  have hstep := step_of_listing (o := o) hp ha
  refine ⟨_, _, hstep, rfl, rfl, ready_of_listing hrun hp, ?_⟩
  obtain ⟨v, hv, he⟩ | ⟨e, hv, he⟩ := misshape_eq_none_iff.mp (shape_of_accepts ha)
  · have houtcome : r.outcome = .ok v := by rw [Response.outcome, hv, he]
    refine .inr ⟨v, hv, he, ?_⟩
    obtain ⟨ts, hts, hlists⟩ | ⟨e, hfails, hfault, hnone⟩ := toolsOf_of_result houtcome
    · rw [hts]
      refine ⟨fun ts' => ?_, fun hnone => absurd ((hlists ts).mpr rfl) (hnone ts)⟩
      simp [Except.map, hlists, eq_comm]
    · obtain ⟨w, cause, hw, rfl⟩ := hfault
      rw [hfails]
      exact ⟨fun ts => iff_of_false nofun (hnone ts), fun _ => ⟨_, rfl, ⟨w, cause, hw, rfl⟩, rfl⟩⟩
  · refine .inl ⟨e, he, hv, ?_⟩
    rw [toolsOf, Response.outcome, hv, he]
    rfl

/-- A tool that is no more than a name, and one that is a list, are both returned; with an entry
that has no name nothing is, not even the tool before it, and the session stays open. -/
theorem listing_of_two_tools : ∃ h s' s'' e, Run {} h ∧
    h.now.phase = some (.await .listing 2) ∧
    h.now.step {} (.heard (.ok (.line
        "\x7b\"id\":2,\"result\":\x7b\"tools\":[\x7b\"name\":\"a\"\x7d,[\"b\",\"B\"]]\x7d\x7d")))
      = some (s', some (.ok (.tools [{ name := "a" }, { name := "b", description := "B" }]))) ∧
    h.now.step {} (.heard (.ok (.line
        "\x7b\"id\":2,\"result\":\x7b\"tools\":[\x7b\"name\":\"a\"\x7d,\x7b\x7d]\x7d\x7d")))
      = some (s'', some (.error e)) ∧ e.isFatal = false ∧ s''.conn.state = .ready := by
  obtain ⟨h, hrun, hp⟩ : ∃ h, Run {} h ∧ h.now.phase = some (.await .listing 2) :=
    ⟨_, run_play {} [.start .connect, .written (.ok ()),
      .heard (.ok (.line "\x7b\"id\":1,\"result\":\x7b\x7d\x7d")), .written (.ok ()),
      .start .listTools, .written (.ok ())], rfl⟩
  have htwo : Accepts 2
      "\x7b\"id\":2,\"result\":\x7b\"tools\":[\x7b\"name\":\"a\"\x7d,[\"b\",\"B\"]]\x7d\x7d"
      { id := 2
        result := some (.obj
          [("tools", .arr [.obj [("name", .str "a")], .arr [.str "b", .str "B"]])]) } :=
    ⟨_, rfl, .inl (.result rfl rfl .missing rfl (.inl rfl))⟩
  have hbad : Accepts 2
      "\x7b\"id\":2,\"result\":\x7b\"tools\":[\x7b\"name\":\"a\"\x7d,\x7b\x7d]\x7d\x7d"
      { id := 2, result := some (.obj [("tools", .arr [.obj [("name", .str "a")], .obj []])]) } :=
    ⟨_, rfl, .inl (.result rfl rfl .missing rfl (.inl rfl))⟩
  obtain ⟨s', out, hstep, -, -, -, ⟨_, hnone, -⟩ | ⟨v, hv, -, hlists, -⟩⟩ :=
    listing_outcome hrun hp htwo
  · exact nomatch hnone
  obtain ⟨s'', out', hstep', -, -, hready, ⟨_, hnone, -⟩ | ⟨v', hv', -, -, hfails⟩⟩ :=
    listing_outcome hrun hp hbad
  · exact nomatch hnone
  cases hv
  cases hv'
  have hout := (hlists [{ name := "a" }, { name := "b", description := "B" }]).mpr
    (.entries rfl (.cons (.object ⟨rfl, .missing, rfl⟩)
      (.cons (.list (by decide) ⟨rfl, .given, rfl⟩) .nil)))
  obtain ⟨e, hout', -, he⟩ := hfails fun ts h => by
    cases h with
    | nothing hnone => exact (hnone _ rfl).elim nofun nofun
    | entries htools hreads =>
        cases htools
        cases hreads with
        | cons _ hrest =>
            cases hrest with
            | cons hreads _ =>
                cases hreads with
                | object hreads => exact nomatch hreads.name
  exact ⟨h, s', s'', e, hrun, hp, hout ▸ hstep, hout' ▸ hstep', he, hready⟩

end Conformance
