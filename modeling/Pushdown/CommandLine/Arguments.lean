/-
  Pushdown.CommandLine.Arguments — one way to read arguments.

  The first argument that is no option is the path of the definition, the others are
  inputs; after `--` no argument is an option. Arguments are read from left to right and
  the first that means something final decides: `--help` or a mistake. A session starts
  from what was asked for, and does not depend on how it was read.
-/

import Pushdown.CommandLine

namespace Pushdown

namespace CommandLine

/-- A count: decimal digits, maybe after a plus sign, below 2^64. -/
def readCount? (text : String) : Option Nat :=
  let digits := match text.toList with
    | '+' :: rest => rest
    | all => all
  if digits.isEmpty || !digits.all Char.isDigit then none
  else
    let n := Nat.ofDigitChars 10 digits 0
    if n < UInt64.size then some n else none

/-- The arguments read so far. -/
structure Draft where
  /-- The arguments that are no options, the latest first. -/
  plain : List String
  maxSteps : Option Nat
  trace : Bool
  json : Bool
  canonical : Bool

namespace Draft

def empty : Draft := ⟨[], none, false, false, false⟩

/-- An argument that is no option. The path of the definition must not be empty. -/
def addPlain? (d : Draft) (argument : String) : Option Draft :=
  if d.plain.isEmpty && argument.isEmpty then none else some { d with plain := argument :: d.plain }

def addAllPlain? (d : Draft) : List String → Option Draft
  | [] => some d
  | argument :: rest => (d.addPlain? argument).bind fun next => next.addAllPlain? rest

/-- The bound on the steps, which may be given once. -/
def setMaxSteps? (d : Draft) (text : String) : Option Draft :=
  if d.maxSteps.isSome then none
  else (readCount? text).map fun n => { d with maxSteps := some n }

/-- A flag, which may be given once. -/
def setFlag? (d : Draft) (argument : String) : Option Draft :=
  match argument with
  | "--trace" => if d.trace then none else some { d with trace := true }
  | "--json" => if d.json then none else some { d with json := true }
  | "--canonical" => if d.canonical then none else some { d with canonical := true }
  | _ => none

def invocation (d : Draft) : Invocation :=
  match d.plain.reverse with
  | [] => .misuse
  | definition :: inputs => .run ⟨definition, inputs, d.maxSteps, d.trace, d.json, d.canonical⟩

end Draft

/-- How an argument begins. -/
inductive Shape where
  | plain
  | maxSteps
  | maxStepsIs (value : String)
  | stopOptions
  | help
  | option

/-- A lone `-` is no option; after `-h` more letters do not matter. -/
def shape (argument : String) : Shape :=
  match argument.toList with
  | ['-', '-'] => .stopOptions
  | '-' :: 'h' :: _ => .help
  | '-' :: _ :: _ =>
    if argument = "--help" then .help
    else if argument = "--max-steps" then .maxSteps
    else if "--max-steps=".toList.isPrefixOf argument.toList then
      .maxStepsIs (String.ofList (argument.toList.drop "--max-steps=".length))
    else .option
  | _ => .plain

/-- What comes of a draft, if there is no mistake in it. -/
def orMisuse (d : Option Draft) (next : Draft → Invocation) : Invocation :=
  match d with
  | some d => next d
  | none => .misuse

def readArguments (d : Draft) : List String → Invocation
  | [] => d.invocation
  | argument :: rest =>
    match shape argument with
    | .plain => orMisuse (d.addPlain? argument) fun next => readArguments next rest
    | .stopOptions => orMisuse (d.addAllPlain? rest) Draft.invocation
    | .help => .help
    | .maxStepsIs value => orMisuse (d.setMaxSteps? value) fun next => readArguments next rest
    | .maxSteps =>
      match rest with
      | [] => .misuse
      | value :: after => orMisuse (d.setMaxSteps? value) fun next => readArguments next after
    | .option => orMisuse (d.setFlag? argument) fun next => readArguments next rest

end CommandLine

def Invocation.ofArguments (arguments : List String) : Invocation :=
  CommandLine.readArguments .empty arguments

end Pushdown
