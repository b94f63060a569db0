/-
  Pushdown.CommandLine.Session — what the command line answers.

  The definition is read and its report goes to standard error; a definition without an
  automaton ends the session. Then comes the canonical form, if it is asked for; then all
  inputs are read before the first one is run; then each input gets its answer.

  A session is one program for every world: the operating system's, where each part is
  written as soon as it is known, and one whose files and input are known beforehand.
-/

import Pushdown.Automaton.Canonical
import Pushdown.CommandLine
import Pushdown.Definition
import Pushdown.Report.Excerpt
import Pushdown.Run
import Pushdown.Text.Lines

namespace Pushdown

/-- Why bytes could not be had as text. -/
inductive ReadFailure where
  | notUtf8
  /-- The reason that the operating system gives. -/
  | system (reason : String)
  deriving DecidableEq, Repr

def ReadFailure.message : ReadFailure → String
  | notUtf8 => "stream did not contain valid UTF-8"
  | system reason => reason

def decodeUtf8 (bytes : ByteArray) : Except ReadFailure String :=
  match String.fromUTF8? bytes with
  | some text => .ok text
  | none => .error .notUtf8

/-- Why a session ends early. -/
inductive Failure where
  | definitionUnreadable (path : String) (reason : ReadFailure)
  | definitionInvalid (path : String)
  | inputsUnreadable (reason : ReadFailure)
  deriving DecidableEq, Repr

namespace Failure

def message : Failure → String
  | definitionUnreadable path _ => "failed to read " ++ path
  | definitionInvalid path => path ++ " is not a valid automaton"
  | inputsUnreadable _ => "failed to read inputs from stdin"

def cause? : Failure → Option ReadFailure
  | definitionUnreadable _ reason => some reason
  | definitionInvalid _ => none
  | inputsUnreadable reason => some reason

/-- The failure as it goes to standard error. -/
def text (f : Failure) : String :=
  "Error: " ++ f.message ++ "\n" ++
    match f.cause? with
    | some reason => "\nCaused by:\n    " ++ reason.message ++ "\n"
    | none => ""

end Failure

namespace Options

/-! ## The parts of a session -/

/-- The report on a definition. -/
def reportText (o : Options) (source : String) (r : Report) : String :=
  if o.json then r.toJson.render ++ "\n" else String.join (r.render source)

/-- What comes of a definition: the report, and the automaton or a failure. -/
def openDefinition (o : Options) (contents : Except ReadFailure ByteArray) :
    String × Except Failure Automaton :=
  match contents.bind decodeUtf8 with
  | .error reason => ("", .error (.definitionUnreadable o.definition reason))
  | .ok source =>
    let definition := Definition.ofSource source
    (o.reportText source definition.report,
      match definition.automaton with
      | some a => .ok a
      | none => .error (.definitionInvalid o.definition))

/-- The canonical form, if it is asked for. -/
def canonicalText (o : Options) (a : Automaton) : String :=
  if o.canonical then if o.json then a.toJson.render ++ "\n" else a.canonical else ""

/-- The lines of standard input, each without its end. -/
def inputLines (text : String) : List String :=
  (Text.terminatedLines text.toList).map fun line => String.ofList (Text.dropLineEnd line)

/-- The inputs: the arguments, or the lines of standard input if there are none. -/
def inputsFrom (o : Options) (stdin : ByteArray) : Except Failure (List String) :=
  if o.inputs.isEmpty then
    match decodeUtf8 stdin with
    | .ok text => .ok (inputLines text)
    | .error reason => .error (.inputsUnreadable reason)
  else .ok o.inputs

/-- The answer to an input, given how its run ended. -/
def answerText (o : Options) (input : String) (outcome : Except StepLimitExceeded Run) : String :=
  if o.json then
    (Json.object [("input", .string input),
      match outcome with
      | .ok run => ("run", run.toJson)
      | .error e => ("step_limit", .number e.limit)]).render ++ "\n"
  else
    Text.Quoted.ofString input ++ (match outcome with
      | .ok run => if o.trace then ":\n" ++ run.text else ": " ++ run.verdict.text
      | .error e => ": " ++ e.message) ++ "\n"

/-- The answer to an input; none when its run never ends. -/
def answer (o : Options) (a : Automaton) (input : String) : Option String :=
  (a.runWithin o.maxSteps input).map (o.answerText input)

end Options

/-! ## A whole session -/

/-- What a session needs of the world around it. -/
structure World (m : Type → Type) where
  readFile : String → m (Except ReadFailure ByteArray)
  /-- All that is on standard input. -/
  readInput : m ByteArray
  out : String → m Unit
  err : String → m Unit
  /-- What becomes of a session that waits for a run without an end. -/
  never : m Unit

section Session

variable {m : Type → Type} [Monad m]

namespace Options

/-- Gets the inputs. Standard input is left alone if there are arguments. -/
def gather (o : Options) (w : World m) : m (Except Failure (List String)) :=
  if o.inputs.isEmpty then o.inputsFrom <$> w.readInput else pure (.ok o.inputs)

/-- Writes the answer to an input. -/
def writeAnswer (o : Options) (w : World m) (a : Automaton) (input : String) : m Unit :=
  match o.answer a input with
  | some text => w.out text
  | none => w.never

/-- The session on an automaton, after its report was written. -/
def sessionOn (o : Options) (w : World m) (a : Automaton) : m Nat := do
  w.out (o.canonicalText a)
  match ← o.gather w with
  | .error failure =>
    w.err failure.text
    return 1
  | .ok inputs =>
    forM inputs (o.writeAnswer w a)
    return 0

/-- The session on a definition: how it ends is its exit code. -/
def session (o : Options) (w : World m) : m Nat := do
  let (report, result) := o.openDefinition (← w.readFile o.definition)
  w.err report
  match result with
  | .error failure =>
    w.err failure.text
    return 1
  | .ok a => o.sessionOn w a

end Options

/-- The session that a command line asks for. -/
def Invocation.session (w : World m) : Invocation → m Nat
  | run options => options.session w
  | help => do
    w.out helpText
    return 0
  | misuse => do
    w.err usageText
    return 2

end Session

/-! ## In a world that is known -/

/-- What a session has written. -/
structure Written where
  stdout : String
  stderr : String

/-- A world that is known beforehand: it keeps what is written. -/
def World.known (files : String → Except ReadFailure ByteArray) (stdin : ByteArray) :
    World (StateT Written Option) where
  readFile path := pure (files path)
  readInput := pure stdin
  out text := modify fun w => { w with stdout := w.stdout ++ text }
  err text := modify fun w => { w with stderr := w.stderr ++ text }
  never := failure

/-- How a session ends and what it wrote. -/
structure Response where
  code : Nat
  stdout : String
  stderr : String
  deriving DecidableEq, Repr

/-- The response to a command line, given what the files hold; none when the session never
    ends. -/
def Invocation.respond (files : String → Except ReadFailure ByteArray) (stdin : ByteArray)
    (asked : Invocation) : Option Response :=
  ((asked.session (.known files stdin)).run ⟨"", ""⟩).map fun (code, written) =>
    ⟨code, written.stdout, written.stderr⟩

end Pushdown
