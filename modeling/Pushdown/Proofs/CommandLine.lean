/-
  Pushdown.Proofs.CommandLine — inputs as arguments, and inputs as lines.

  A session starts from options, however they were read. All that is asked of a reader of
  arguments is that it passes on what stands behind `--` (`PassesInputs`). Lines of standard
  input are the inputs that they were made of, unless a line feed or a return at the end of
  an input is taken for the end of its line (`inputLines_join`). Bytes are read as the text
  that they encode or not at all (`decodeUtf8_eq_ok`).

  In a world that is known a session goes one of four ways (`respond_run`): no text, no
  automaton, no inputs, or all answers.
-/

import Pushdown.CommandLine.Session
import Pushdown.Proofs.Diagnosis
import Pushdown.Proofs.Line

namespace Pushdown

/-- The same options for other inputs. -/
def Options.on (o : Options) (inputs : List String) : Options := { o with inputs := inputs }

namespace CommandLine

/-! ## Inputs as arguments -/

/-- Arguments with inputs behind them, none of which is taken for an option. -/
def withInputs (arguments inputs : List String) : List String :=
  arguments ++ if "--" ∈ arguments then inputs else "--" :: inputs

/-- Arguments are read so that what follows `--` is passed on as it stands, as inputs. -/
def PassesInputs (parse : List String → Invocation) : Prop :=
  ∀ arguments o, parse arguments = .run o → ∀ inputs, parse (withInputs arguments inputs) = .run (o.on (o.inputs ++ inputs))

end CommandLine

/-! ## Texts as bytes -/

theorem decodeUtf8_toUTF8 (text : String) : decodeUtf8 text.toUTF8 = .ok text := by
  rw [decodeUtf8, String.toUTF8_eq_toByteArray, String.fromUTF8?, dif_pos text.isValidUTF8]
  rfl

theorem decodeUtf8_eq_ok {bytes : ByteArray} {text : String} : decodeUtf8 bytes = .ok text ↔ bytes = text.toUTF8 := by
  refine ⟨?_, ?_⟩
  · intro h
    unfold decodeUtf8 at h
    split at h
    · next decoded hd =>
      cases h
      obtain ⟨hvalid, rfl⟩ : ∃ hvalid, String.fromUTF8 bytes hvalid = text := by
        unfold String.fromUTF8? at hd
        split at hd
        · next hvalid => exact ⟨hvalid, Option.some.inj hd⟩
        · cases hd
      rfl
    · cases h
  · rintro rfl
    exact decodeUtf8_toUTF8 text

/-! ## Inputs as lines -/

namespace Options

open Text

/-- An input that is its own line: no character of it is taken for the end. -/
def IsLine (input : String) : Prop := '\n' ∉ input.toList ∧ input.toList.getLast? ≠ some '\r'

theorem dropLineEnd_append {line : List Char} (h : line.getLast? ≠ some '\r') : dropLineEnd (line ++ ['\n']) = line := by
  rw [← List.head?_reverse] at h
  rw [dropLineEnd, List.reverse_concat]
  split
  · next before hr =>
    rw [(List.cons.inj hr).2] at h
    exact absurd rfl h
  · next before _ hr => rw [← (List.cons.inj hr).2, List.reverse_reverse]
  · next hno => exact absurd rfl (hno line.reverse)

/-- Lines are read as the inputs that they were made of. -/
theorem inputLines_join {inputs : List String} (h : ∀ input ∈ inputs, IsLine input) :
    inputLines (String.join (inputs.map (· ++ "\n"))) = inputs := by
  induction inputs with
  | nil => rfl
  | cons input rest ih =>
    obtain ⟨⟨hline, hreturn⟩, hrest⟩ := List.forall_mem_cons.mp h
    have htext : (String.join ((input :: rest).map (· ++ "\n"))).toList =
        input.toList ++ '\n' :: (String.join (rest.map (· ++ "\n"))).toList := by
      simp
    rw [inputLines, htext, terminatedLines_append hline, List.map_cons, dropLineEnd_append hreturn, String.ofList_toList]
    exact congrArg _ (ih hrest)

/-! ## The ways of a session -/

/-- What a session on an automaton comes to, after its report was written. -/
def respondWith (o : Options) (report : String) (a : Automaton) (stdin : ByteArray) : Option Response :=
  let canonical := o.canonicalText a
  match o.inputsFrom stdin with
  | .error failure => some ⟨1, canonical, report ++ failure.text⟩
  | .ok inputs =>
    (inputs.mapM (o.answer a)).map fun answers => ⟨0, canonical ++ String.join answers, report⟩

/-- What a session on a definition comes to; none when it never ends. -/
def respond (o : Options) (contents : Except ReadFailure ByteArray) (stdin : ByteArray) : Option Response :=
  match o.openDefinition contents with
  | (report, .error failure) => some ⟨1, "", report ++ failure.text⟩
  | (report, .ok a) => o.respondWith report a stdin

section Known

variable {o : Options} {files : String → Except ReadFailure ByteArray} {stdin : ByteArray}

theorem run_gather (written : Written) :
    (o.gather (.known files stdin)).run written = some (o.inputsFrom stdin, written) := by
  unfold gather inputsFrom
  split <;> rfl

theorem run_writeAnswers (a : Automaton) (inputs : List String) (written : Written) :
    (forM inputs (o.writeAnswer (.known files stdin) a)).run written =
      (inputs.mapM (o.answer a)).map fun answers =>
        ((), { written with stdout := written.stdout ++ String.join answers }) := by
  induction inputs generalizing written with
  | nil => simp
  | cons input rest ih =>
    rw [List.forM_cons, StateT.run_bind, List.mapM_cons, writeAnswer]
    cases o.answer a input with
    | none => rfl
    | some text =>
      have hout : ((World.known files stdin).out text).run written =
          some ((), { written with stdout := written.stdout ++ text }) := rfl
      rw [hout, Option.bind_eq_bind, Option.bind_some, ih]
      cases rest.mapM (o.answer a) with
      | none => rfl
      | some answers => simp [String.append_assoc]

theorem run_sessionOn (a : Automaton) (report : String) :
    (o.sessionOn (.known files stdin) a).run ⟨"", report⟩ =
      (o.respondWith report a stdin).map fun r => (r.code, ⟨r.stdout, r.stderr⟩) := by
  have hout : ((World.known files stdin).out (o.canonicalText a)).run ⟨"", report⟩ =
      some ((), ⟨o.canonicalText a, report⟩) := by
    simp [World.known]
  rw [sessionOn, respondWith, StateT.run_bind, hout, Option.bind_eq_bind, Option.bind_some, StateT.run_bind, run_gather,
    Option.bind_eq_bind, Option.bind_some]
  cases o.inputsFrom stdin with
  | error failure => simp [World.known]
  | ok inputs => simp [run_writeAnswers, Function.comp_def]

/-- In a world that is known a session comes to what its parts say. -/
theorem respond_run : (Invocation.run o).respond files stdin = o.respond (files o.definition) stdin := by
  have hread (written : Written) : ((World.known files stdin).readFile o.definition).run written =
      some (files o.definition, written) := rfl
  have herr (report : String) : ((World.known files stdin).err report).run ⟨"", ""⟩ = some ((), ⟨"", report⟩) := by
    simp [World.known]
  rw [Invocation.respond, Invocation.session, session, respond, StateT.run_bind, hread, Option.bind_eq_bind,
    Option.bind_some]
  obtain ⟨report, result⟩ := o.openDefinition (files o.definition)
  cases result with
  | error failure => simp [World.known]
  | ok a => simp [herr, run_sessionOn, Function.comp_def]

end Known

section Session

variable {o : Options} {source : String} {stdin : ByteArray}

theorem inputsFrom_arguments (h : o.inputs ≠ []) : o.inputsFrom stdin = .ok o.inputs := by
  rw [inputsFrom, if_neg (by simpa using h)]

theorem inputsFrom_lines (h : o.inputs = []) (text : String) : o.inputsFrom text.toUTF8 = .ok (inputLines text) := by
  rw [inputsFrom, if_pos (by simpa using h), decodeUtf8_toUTF8]

theorem exists_inputs_iff :
    (∃ inputs, o.inputsFrom stdin = .ok inputs) ↔ o.inputs ≠ [] ∨ ∃ text : String, stdin = text.toUTF8 := by
  by_cases hnone : o.inputs = []
  · simp only [inputsFrom, hnone, List.isEmpty_nil, if_true, ne_eq, not_true_eq_false, false_or]
    cases hd : decodeUtf8 stdin with
    | ok text => exact iff_of_true ⟨_, rfl⟩ ⟨text, decodeUtf8_eq_ok.mp hd⟩
    | error reason =>
      refine iff_of_false (by simp) ?_
      rintro ⟨text, rfl⟩
      rw [decodeUtf8_toUTF8] at hd
      cases hd
  · exact iff_of_true ⟨_, inputsFrom_arguments hnone⟩ (.inl hnone)

theorem respond_of_load {a : Automaton} (hload : load source = .ok a) (stdin : ByteArray) :
    o.respond (.ok source.toUTF8) stdin =
      o.respondWith (o.reportText source (Definition.ofSource source).report) a stdin := by
  rw [respond, openDefinition, Except.bind, decodeUtf8_toUTF8]
  simp only [load_eq_ok_iff.mp hload]

theorem respond_of_refused {m : Malformed} (h : load source = .error m) (stdin : ByteArray) :
    o.respond (.ok source.toUTF8) stdin =
      some ⟨1, "", o.reportText source (Definition.ofSource source).report ++
        (Failure.definitionInvalid o.definition).text⟩ := by
  rw [respond, openDefinition, Except.bind, decodeUtf8_toUTF8]
  simp only [exists_error_iff.mp ⟨m, h⟩]

/-- Bytes that are no text give no report. -/
theorem respond_of_unreadable {contents : Except ReadFailure ByteArray} (h : ∀ source : String, contents ≠ .ok source.toUTF8)
    (stdin : ByteArray) :
    ∃ reason, o.respond contents stdin = some ⟨1, "", (Failure.definitionUnreadable o.definition reason).text⟩ := by
  obtain ⟨reason, hreason⟩ : ∃ reason, contents.bind decodeUtf8 = .error reason := by
    cases contents with
    | error reason => exact ⟨reason, rfl⟩
    | ok bytes =>
      cases hd : decodeUtf8 bytes with
      | error reason => exact ⟨reason, hd⟩
      | ok source => exact absurd (congrArg Except.ok (decodeUtf8_eq_ok.mp hd)) (h source)
  refine ⟨reason, ?_⟩
  rw [respond, openDefinition, hreason]
  simp only [String.empty_append]

/-- Nothing else matters for a session than which inputs it gets. -/
theorem respond_on {inputs : List String} {stdin' : ByteArray} {contents : Except ReadFailure ByteArray}
    (h : (o.on inputs).inputsFrom stdin = o.inputsFrom stdin') :
    (o.on inputs).respond contents stdin = o.respond contents stdin' := by
  unfold respond respondWith
  rw [h]
  rfl

end Session

end Options

end Pushdown
