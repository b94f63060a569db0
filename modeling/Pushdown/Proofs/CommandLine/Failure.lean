/-
  Pushdown.Proofs.CommandLine.Failure — a session fails when loading does, and says why.

  A session works on the findings and the automaton of a definition, loading on its own
  result. `session_agrees`: they accept the same definitions, and where loading gives up the
  errors that a session tells of are its diagnostics, be it in colour or in JSON. A session
  that fails has written no answer: nothing at all without an automaton, and at most the
  canonical form of the automaton without inputs.
-/

import Pushdown.Proofs.CommandLine.Answers
import Pushdown.Proofs.Report.Errors
import Pushdown.Proofs.Wording

namespace Pushdown

/-! ## What is told of a definition that is refused -/

/-- The text of a report tells of the errors that loading gives up with. -/
structure TellsErrors (o : Options) (source : String) (m : Malformed) (report : String) : Prop where
  text : report = o.reportText source (Definition.ofSource source).report
  diagnostics : m.diagnostics = ((Definition.ofSource source).report.entries.toList.filter Entry.isError).map fun e =>
    ⟨e.remark.place.map fun s => Text.lineOf source.toList s.start, e.remark.message⟩
  /-- There are only warnings between the errors. -/
  others : ∀ e ∈ (Definition.ofSource source).report.entries, e.isError = false → e.remark.severity = .warning
  coloured : o.json = false → errorLines report.toList = m.diagnostics.map fun d => (errorHeader d.message).toList
  /-- The report is one line, and the text of one value only. -/
  json : o.json = true → ∃ j : Json, report = j.render ++ "\n" ∧ '\n' ∉ j.render.toList ∧
    (∀ j' : Json, report = j'.render ++ "\n" → j' = j) ∧ j.loggedErrors source.toList = m.diagnostics

theorem Problem.severity_cases (p : Problem) : p.severity = .error ∨ p.severity = .warning := by
  cases p <;> simp [severity]

section Report

variable {source : String} {m : Malformed}

/-- Every entry of the report on a text stands on one line, and no note is an error. -/
theorem oneLine_of_mem_entries {e : Entry} (h : e ∈ (Definition.ofSource source).report.entries.toList) : e.OneLine := by
  rw [Definition.report, Report.toList_entries_ofFindings] at h
  obtain ⟨f, hf, rfl⟩ := List.mem_map.mp h
  exact ⟨lineFeed_notMem_of_findings hf, fun _ hr => note_of_problem hr⟩

theorem tellsErrors_of_load (o : Options) (h : load source = .error m) :
    TellsErrors o source m (o.reportText source (Definition.ofSource source).report) where
  text := rfl
  diagnostics := ((failure_diagnosed source).diagnostics m h).2
  others := by
    intro e he hno
    rw [← Array.mem_toList_iff, Definition.report, Report.toList_entries_ofFindings] at he
    obtain ⟨f, -, rfl⟩ := List.mem_map.mp he
    refine f.problem.severity_cases.resolve_left ?_
    intro herror
    exact absurd (beq_iff_eq.mpr herror) (by simpa [Entry.isError, Finding.entry] using hno)
  coloured := by
    intro hjson
    rw [Options.reportText, hjson, ((failure_diagnosed source).diagnostics m h).2, List.map_map]
    exact errorLines_render (fun e he => oneLine_of_mem_entries he) source.toList
  json := by
    intro hjson
    have htext : o.reportText source (Definition.ofSource source).report =
        (Definition.ofSource source).report.toJson.render ++ "\n" := by
      rw [Options.reportText, if_pos hjson]
    refine ⟨(Definition.ofSource source).report.toJson, htext, Json.lineFeed_notMem_text _, ?_, ?_⟩
    · intro j' hj'
      exact Json.render_inj ((String.append_left_inj _).mp (hj'.symm.trans htext))
    · rw [loggedErrors_toJson, diagnostics_of_load h]

end Report

/-! ## Sessions -/

/-- A session on a definition and on standard input, held against loading. -/
structure AgreesWithLoad (o : Options) (contents : Except ReadFailure ByteArray) (stdin : ByteArray)
    (response : Response) : Prop where
  succeeds : response.code = 0 ↔ ∃ source : String, contents = .ok source.toUTF8 ∧ (∃ a, load source = .ok a) ∧
    (o.inputs ≠ [] ∨ ∃ text : String, stdin = text.toUTF8)
  fails : response.code = 0 ∨ response.code = 1
  unreadable : (∀ source : String, contents ≠ .ok source.toUTF8) → response.stdout = ""
  refused : ∀ source m, contents = .ok source.toUTF8 → load source = .error m →
    response.stdout = "" ∧ ∃ report, TellsErrors o source m report ∧
      response.stderr = report ++ (Failure.definitionInvalid o.definition).text
  noInputs : ∀ source a, contents = .ok source.toUTF8 → load source = .ok a → o.inputs = [] →
    (∀ text : String, stdin ≠ text.toUTF8) → response.stdout = o.canonicalText a

section Session

variable {o : Options} {contents : Except ReadFailure ByteArray} {stdin : ByteArray} {source : String}

theorem source_unique {s t : String} (h : (.ok s.toUTF8 : Except ReadFailure ByteArray) = .ok t.toUTF8) : s = t :=
  String.toByteArray_inj.mp (Except.ok.inj h)

theorem agrees_of_unreadable (h : ∀ source : String, contents ≠ .ok source.toUTF8) (reason : ReadFailure) :
    AgreesWithLoad o contents stdin ⟨1, "", (Failure.definitionUnreadable o.definition reason).text⟩ where
  succeeds := iff_of_false Nat.one_ne_zero fun hs => hs.elim fun source hsource => h source hsource.1
  fails := .inr rfl
  unreadable := fun _ => rfl
  refused := fun source _ hsource _ => absurd hsource (h source)
  noInputs := fun source _ hsource _ _ _ => absurd hsource (h source)

theorem agrees_of_refused {m : Malformed} (h : load source = .error m) :
    AgreesWithLoad o (.ok source.toUTF8) stdin
      ⟨1, "", o.reportText source (Definition.ofSource source).report ++ (Failure.definitionInvalid o.definition).text⟩ where
  succeeds := by
    refine iff_of_false Nat.one_ne_zero ?_
    rintro ⟨source', hsource, ⟨a, ha⟩, -⟩
    rw [← source_unique hsource, h] at ha
    cases ha
  fails := .inr rfl
  unreadable := fun _ => rfl
  refused := by
    intro source' m' hsource hm
    obtain rfl := source_unique hsource
    obtain rfl : m = m' := Except.error.inj (h.symm.trans hm)
    exact ⟨rfl, _, tellsErrors_of_load o h, rfl⟩
  noInputs := by
    intro source' a hsource ha
    rw [← source_unique hsource, h] at ha
    cases ha

theorem agrees_of_load {a : Automaton} (h : load source = .ok a) {response : Response}
    (hsucceeds : response.code = 0 ↔ o.inputs ≠ [] ∨ ∃ text : String, stdin = text.toUTF8)
    (hfails : response.code = 0 ∨ response.code = 1)
    (hnone : o.inputs = [] → (∀ text : String, stdin ≠ text.toUTF8) → response.stdout = o.canonicalText a) :
    AgreesWithLoad o (.ok source.toUTF8) stdin response where
  succeeds := by
    refine hsucceeds.trans ⟨fun hs => ⟨source, rfl, ⟨a, h⟩, hs⟩, ?_⟩
    rintro ⟨-, -, -, hs⟩
    exact hs
  fails := hfails
  unreadable := fun hno => absurd rfl (hno source)
  refused := by
    intro source' m hsource hm
    rw [← source_unique hsource, h] at hm
    cases hm
  noInputs := by
    intro source' a' hsource ha
    rw [← source_unique hsource, h] at ha
    obtain rfl : a = a' := Except.ok.inj ha
    exact hnone

end Session

/-- A session whose runs all end is over, and agrees with loading, however its arguments
    are read. -/
theorem session_agrees {parse : List String → Invocation} {arguments : List String} {o : Options}
    {files : String → Except ReadFailure ByteArray} {stdin : ByteArray} (hrun : parse arguments = .run o)
    (hends : ∀ source a inputs, files o.definition = .ok source.toUTF8 → load source = .ok a →
      o.inputsFrom stdin = .ok inputs → ∀ input ∈ inputs, o.EndsOn a input) :
    ∃ response, (parse arguments).respond files stdin = some response ∧
      AgreesWithLoad o (files o.definition) stdin response := by
  rw [hrun, Options.respond_run]
  by_cases hread : ∃ source : String, files o.definition = .ok source.toUTF8
  · obtain ⟨source, hsource⟩ := hread
    rw [hsource]
    cases hload : load source with
    | error m => exact ⟨_, Options.respond_of_refused hload stdin, agrees_of_refused hload⟩
    | ok a =>
      rw [Options.respond_of_load hload]
      cases hinputs : o.inputsFrom stdin with
      | error failure =>
        have hno : ¬ ∃ inputs, o.inputsFrom stdin = .ok inputs := by simp [hinputs]
        refine ⟨_, by rw [Options.respondWith, hinputs], agrees_of_load hload ?_ (.inr rfl) fun _ _ => rfl⟩
        exact iff_of_false Nat.one_ne_zero (mt Options.exists_inputs_iff.mpr hno)
      | ok inputs =>
        have hgot := Options.exists_inputs_iff.mp ⟨inputs, hinputs⟩
        obtain ⟨outcomes, -, hanswers⟩ := Options.exists_answers (hends source a inputs hsource hload hinputs)
        have hrespond : o.respondWith (o.reportText source (Definition.ofSource source).report) a stdin =
            some ⟨0, o.canonicalText a ++ String.join (List.zipWith o.answerText inputs outcomes),
              o.reportText source (Definition.ofSource source).report⟩ := by
          rw [Options.respondWith, hinputs]
          simp only [hanswers, Option.map_some]
        refine ⟨_, hrespond, agrees_of_load hload (iff_of_true rfl hgot) (.inl rfl) ?_⟩
        intro hnone hno
        obtain ⟨text, htext⟩ := hgot.resolve_left (not_not_intro hnone)
        exact absurd htext (hno text)
  · obtain ⟨reason, hrespond⟩ := Options.respond_of_unreadable (o := o) (not_exists.mp hread) stdin
    exact ⟨_, hrespond, agrees_of_unreadable (not_exists.mp hread) reason⟩

/-- A session with a bound on the runs succeeds. One that needs its inputs from a byte that
    is no text fails, and has written what was asked for before. -/
theorem session_agrees_of_carousel :
    (∃ response, (Invocation.ofArguments ["d", "--max-steps=2", ""]).respond (fun _ => .ok carousel.toUTF8) .empty =
        some response ∧ response.code = 0) ∧
      ∃ response, (Invocation.ofArguments ["d", "--canonical"]).respond (fun _ => .ok carousel.toUTF8) ⟨#[0xff]⟩ =
        some response ∧ response.code = 1 ∧ response.stdout = Automaton.carousel.canonical := by
  refine ⟨?_, ?_⟩
  · have hrun : Invocation.ofArguments ["d", "--max-steps=2", ""] =
        .run ⟨"d", [""], some 2, false, false, false⟩ := by decide +kernel
    obtain ⟨response, hrespond, hagrees⟩ := @session_agrees _ _ _ (fun _ => .ok carousel.toUTF8) .empty
      hrun fun _ _ _ _ _ _ _ _ => .inl rfl
    exact ⟨response, hrespond, hagrees.succeeds.mpr ⟨carousel, rfl, ⟨_, load_carousel⟩, .inl (by simp)⟩⟩
  · have hrun : Invocation.ofArguments ["d", "--canonical"] = .run ⟨"d", [], none, false, false, true⟩ := by
      decide +kernel
    have hbytes : ∀ text : String, (⟨#[0xff]⟩ : ByteArray) ≠ text.toUTF8 := by
      intro text h
      have hvalid : ByteArray.IsValidUTF8 ⟨#[0xff]⟩ := by
        rw [h]
        exact text.isValidUTF8
      exact absurd hvalid (by decide +kernel)
    have hends : ∀ source a inputs, (.ok carousel.toUTF8 : Except ReadFailure ByteArray) = .ok source.toUTF8 →
        load source = .ok a → Options.inputsFrom ⟨"d", [], none, false, false, true⟩ ⟨#[0xff]⟩ = .ok inputs →
          ∀ input ∈ inputs, Options.EndsOn ⟨"d", [], none, false, false, true⟩ a input := by
      intro source a inputs _ _ hinputs
      obtain ⟨text, htext⟩ := (Options.exists_inputs_iff.mp ⟨inputs, hinputs⟩).resolve_left (by simp)
      exact absurd htext (hbytes text)
    obtain ⟨response, hrespond, hagrees⟩ := @session_agrees _ _ _ (fun _ => .ok carousel.toUTF8) ⟨#[0xff]⟩ hrun hends
    have hcode : response.code = 1 := by
      refine hagrees.fails.resolve_left ?_
      intro hzero
      obtain ⟨-, -, -, hgot⟩ := hagrees.succeeds.mp hzero
      obtain ⟨text, htext⟩ := hgot.resolve_left (by simp)
      exact absurd htext (hbytes text)
    have hstdout := hagrees.noInputs carousel _ rfl load_carousel rfl hbytes
    exact ⟨response, hrespond, hcode, by simpa [Options.canonicalText] using hstdout⟩

end Pushdown
