/-
  Pushdown.Proofs.CommandLine.Answers — one line for each input, however the inputs come.

  Without a trace to print, an input is answered on one line, whatever characters it holds
  (`lineFeed_notMem_lineFor`), and no line answers two inputs (`lineFor_inj`). The answers
  of a session are these lines, in the order of the inputs. `answersByLine_of_load` says so
  for any reader of arguments that passes inputs on.
-/

import Mathlib.Data.List.Forall2
import Pushdown.Proofs.Automaton.Moves
import Pushdown.Proofs.CommandLine.Arguments
import Pushdown.Proofs.Text.Quoted

namespace Pushdown

open Text

theorem Verdict.lineFeed_notMem_text (v : Verdict) : '\n' ∉ v.text.toList := by
  cases v <;> exact notMem_literal (by decide)

theorem StepLimitExceeded.lineFeed_notMem_message (e : StepLimitExceeded) : '\n' ∉ e.message.toList := by
  have hlimit : '\n' ∉ e.limit.repr.toList := by
    rw [Nat.toList_repr]
    exact Json.lineFeed_notMem_digits e.limit
  unfold message
  exact notMem_append (notMem_append (notMem_literal (by decide)) hlimit) (notMem_literal (by decide))

namespace Options

variable {o : Options} {a : Automaton}

/-- The session does not wait for ever on an input. -/
def EndsOn (o : Options) (a : Automaton) (input : String) : Prop :=
  o.maxSteps.isSome = true ∨ (a.run input).isSome = true

theorem endsOn_iff {input : String} : o.EndsOn a input ↔ ∃ outcome, a.runWithin o.maxSteps input = some outcome := by
  cases hsteps : o.maxSteps with
  | none => simp [EndsOn, hsteps, Automaton.runWithin, ← Option.isSome_iff_exists]
  | some limit => simp [EndsOn, hsteps, Automaton.runWithin]

/-! ## The line of an input -/

/-- The line for an input whose run ended so: a JSON object, or the quoted input and the
    verdict. -/
def lineFor (o : Options) (input : String) (outcome : Except StepLimitExceeded Run) : String :=
  if o.json then
    (Json.object [("input", .string input),
      match outcome with
      | .ok run => ("run", run.toJson)
      | .error e => ("step_limit", .number e.limit)]).render
  else
    Quoted.ofString input ++ ": " ++ match outcome with
      | .ok run => run.verdict.text
      | .error e => e.message

theorem answerText_eq_lineFor (h : o.trace = false ∨ o.json = true) (input : String)
    (outcome : Except StepLimitExceeded Run) : o.answerText input outcome = o.lineFor input outcome ++ "\n" := by
  unfold answerText lineFor
  cases hjson : o.json with
  | true => rfl
  | false =>
    have htrace : o.trace = false := h.resolve_right (by simp [hjson])
    cases outcome <;> simp [htrace, String.append_assoc]

theorem lineFeed_notMem_lineFor (input : String) (outcome : Except StepLimitExceeded Run) :
    '\n' ∉ (o.lineFor input outcome).toList := by
  unfold lineFor
  split
  · exact Json.lineFeed_notMem_text _
  · have houtcome : '\n' ∉ (match outcome with
        | .ok run => run.verdict.text
        | .error e => e.message).toList := by
      cases outcome with
      | ok run => exact run.verdict.lineFeed_notMem_text
      | error e => exact e.lineFeed_notMem_message
    exact notMem_append (notMem_append (Quoted.lineFeed_notMem_ofString input) (notMem_literal (by decide))) houtcome

/-- A line tells its input, and no line is that of two. -/
theorem lineFor_inj {input input' : String} {outcome outcome' : Except StepLimitExceeded Run}
    (h : o.lineFor input outcome = o.lineFor input' outcome') : input = input' := by
  unfold lineFor at h
  split at h
  · have hfields := Json.object.inj (Json.render_inj h)
    exact Json.string.inj (Prod.mk.inj (List.cons.inj hfields).1).2
  · have htext := congrArg String.toList h
    simp only [String.toList_append, List.append_assoc] at htext
    exact (Quoted.ofString_unambiguous htext).1

/-! ## The answers to all inputs -/

/-- Every input has its run, and its answer shows it. -/
theorem exists_answers {inputs : List String} (h : ∀ input ∈ inputs, o.EndsOn a input) :
    ∃ outcomes, List.Forall₂ (fun input outcome => a.runWithin o.maxSteps input = some outcome) inputs outcomes ∧
      inputs.mapM (o.answer a) = some (List.zipWith o.answerText inputs outcomes) := by
  induction inputs with
  | nil => exact ⟨[], .nil, rfl⟩
  | cons input rest ih =>
    obtain ⟨hinput, hrest⟩ := List.forall_mem_cons.mp h
    obtain ⟨outcome, hrun⟩ := endsOn_iff.mp hinput
    obtain ⟨outcomes, hruns, hanswers⟩ := ih hrest
    refine ⟨outcome :: outcomes, .cons hrun hruns, ?_⟩
    rw [List.mapM_cons, answer, hrun, hanswers]
    rfl

/-- What stands on the lines that inputs are answered with. -/
structure Answered (o : Options) (a : Automaton) (inputs lines : List String) : Prop where
  oneLine : ∀ line ∈ lines, '\n' ∉ line.toList
  /-- As many lines as inputs, in their order, each with the outcome of a run on its input. -/
  shown : ∃ outcomes, List.Forall₂ (fun input outcome => a.runWithin o.maxSteps input = some outcome) inputs outcomes ∧
    lines = List.zipWith o.lineFor inputs outcomes
  apart : ∀ (i j : Nat) line, lines[i]? = some line → lines[j]? = some line → inputs[i]? = inputs[j]?

theorem exists_answered {inputs : List String} (h : ∀ input ∈ inputs, o.EndsOn a input)
    (hform : o.trace = false ∨ o.json = true) :
    ∃ lines, inputs.mapM (o.answer a) = some (lines.map (· ++ "\n")) ∧ o.Answered a inputs lines := by
  obtain ⟨outcomes, hruns, hanswers⟩ := exists_answers h
  refine ⟨List.zipWith o.lineFor inputs outcomes, ?_, ?_, ⟨outcomes, hruns, rfl⟩, ?_⟩
  · rw [hanswers, List.map_zipWith]
    exact congrArg (fun f => some (List.zipWith f inputs outcomes)) (funext fun input => funext fun outcome =>
      answerText_eq_lineFor hform input outcome)
  · intro line hline
    obtain ⟨i, hi, rfl⟩ := List.mem_iff_getElem.mp hline
    rw [List.getElem_zipWith]
    exact lineFeed_notMem_lineFor _ _
  · intro i j line hi hj
    obtain ⟨input, outcome, hinput, -, rfl⟩ := List.getElem?_zipWith_eq_some.mp hi
    obtain ⟨input', outcome', hinput', -, hline⟩ := List.getElem?_zipWith_eq_some.mp hj
    rw [hinput, hinput', lineFor_inj hline]

end Options

/-! ## Sessions -/

open CommandLine (PassesInputs withInputs)

/-- How sessions on a definition answer, by whatever way their arguments are read and their
    inputs come. -/
structure AnswersByLine (parse : List String → Invocation) (source : String) (a : Automaton) : Prop where
  lines : ∀ files arguments o stdin inputs, parse arguments = .run o →
    files o.definition = .ok source.toUTF8 → o.inputsFrom stdin = .ok inputs →
    (∀ input ∈ inputs, o.EndsOn a input) → o.trace = false ∨ o.json = true →
      ∃ lines report, (parse arguments).respond files stdin =
          some ⟨0, o.canonicalText a ++ String.join (lines.map (· ++ "\n")), report⟩ ∧
        o.Answered a inputs lines
  /-- Inputs behind `--` are answered like that, whatever they hold and whatever is on
      standard input. -/
  behind : ∀ files arguments o stdin inputs, parse arguments = .run o →
    files o.definition = .ok source.toUTF8 → inputs ≠ [] →
    (∀ input ∈ o.inputs ++ inputs, o.EndsOn a input) → o.trace = false ∨ o.json = true →
      ∃ lines report, (parse (withInputs arguments inputs)).respond files stdin =
          some ⟨0, o.canonicalText a ++ String.join (lines.map (· ++ "\n")), report⟩ ∧
        o.Answered a (o.inputs ++ inputs) lines
  /-- With any flags, and even if a run never ends. -/
  same : ∀ files arguments o inputs, parse arguments = .run o → o.inputs = [] → inputs ≠ [] →
    (∀ input ∈ inputs, Options.IsLine input) → ∀ stdin,
      (parse (withInputs arguments inputs)).respond files stdin =
        (parse arguments).respond files (String.join (inputs.map (· ++ "\n"))).toUTF8

section Sessions

variable {parse : List String → Invocation} {source : String} {a : Automaton} {o : Options}
  {files : String → Except ReadFailure ByteArray} {stdin : ByteArray} {inputs : List String}

/-- A session that gets its inputs answers them line by line. -/
theorem respond_lines (hload : load source = .ok a) (hread : files o.definition = .ok source.toUTF8)
    (hinputs : o.inputsFrom stdin = .ok inputs) (hends : ∀ input ∈ inputs, o.EndsOn a input)
    (hform : o.trace = false ∨ o.json = true) :
    ∃ lines report, (Invocation.run o).respond files stdin =
        some ⟨0, o.canonicalText a ++ String.join (lines.map (· ++ "\n")), report⟩ ∧
      o.Answered a inputs lines := by
  obtain ⟨lines, hanswers, hanswered⟩ := Options.exists_answered hends hform
  refine ⟨lines, o.reportText source (Definition.ofSource source).report, ?_, hanswered⟩
  rw [Options.respond_run, hread, Options.respond_of_load hload, Options.respondWith, hinputs]
  simp only [hanswers, Option.map_some]

theorem answersByLine_of_load (hparse : PassesInputs parse) (hload : load source = .ok a) :
    AnswersByLine parse source a where
  lines := by
    intro files arguments o stdin inputs hrun hread hinputs hends hform
    rw [hrun]
    exact respond_lines hload hread hinputs hends hform
  behind := by
    intro files arguments o stdin inputs hrun hread hne hends hform
    rw [hparse arguments o hrun inputs]
    have hinputs : (o.on (o.inputs ++ inputs)).inputsFrom stdin = .ok (o.inputs ++ inputs) :=
      Options.inputsFrom_arguments (List.append_ne_nil_of_right_ne_nil _ hne)
    obtain ⟨lines, report, hrespond, hanswered⟩ := @respond_lines _ _ (o.on (o.inputs ++ inputs)) _ stdin _
      hload hread hinputs hends hform
    exact ⟨lines, report, hrespond, hanswered.oneLine, hanswered.shown, hanswered.apart⟩
  same := by
    intro files arguments o inputs hrun hnone hne hlines stdin
    have htaken := hparse arguments o hrun inputs
    rw [hnone, List.nil_append] at htaken
    rw [htaken, hrun, Options.respond_run, Options.respond_run]
    refine Options.respond_on ?_
    rw [Options.inputsFrom_arguments hne, Options.inputsFrom_lines hnone, Options.inputLines_join hlines]
    rfl

end Sessions

/-- A line feed may be an input, behind `--`. Others may also come as lines: one that is
    empty, or a return that something follows. -/
theorem answersByLine_of_carousel :
    load carousel = .ok .carousel ∧
      (∃ lines report,
        (Invocation.ofArguments ["d", "--max-steps=2", "--", "\n", ""]).respond (fun _ => .ok carousel.toUTF8) .empty =
            some ⟨0, String.join (lines.map (· ++ "\n")), report⟩ ∧
          Options.Answered ⟨"d", [], some 2, false, false, false⟩ .carousel ["\n", ""] lines) ∧
      (Invocation.ofArguments ["d", "--max-steps=2", "--", "", "\ra"]).respond (fun _ => .ok carousel.toUTF8) .empty =
        (Invocation.ofArguments ["d", "--max-steps=2"]).respond (fun _ => .ok carousel.toUTF8) "\n\ra\n".toUTF8 := by
  obtain ⟨-, hbehind, hsame⟩ := answersByLine_of_load passesInputs_ofArguments load_carousel
  have hrun : Invocation.ofArguments ["d", "--max-steps=2"] = .run ⟨"d", [], some 2, false, false, false⟩ := by
    decide +kernel
  refine ⟨load_carousel, ?_, ?_⟩
  · obtain ⟨lines, report, hrespond, hanswered⟩ := hbehind (fun _ => .ok carousel.toUTF8) _ _ .empty ["\n", ""]
      hrun rfl (by simp) (fun _ _ => .inl rfl) (.inl rfl)
    exact ⟨lines, report, hrespond.trans (by simp [Options.canonicalText]), hanswered⟩
  · have hisLine : ∀ input ∈ ["", "\ra"], Options.IsLine input := by
      simp [Options.IsLine]
    exact hsame (fun _ => .ok carousel.toUTF8) _ _ ["", "\ra"] hrun rfl (by simp) hisLine .empty

end Pushdown
