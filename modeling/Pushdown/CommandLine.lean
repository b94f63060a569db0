/-
  Pushdown.CommandLine — what a command line asks for.
-/

namespace Pushdown

structure Options where
  definition : String
  /-- Empty when the inputs are to be read from standard input. -/
  inputs : List String
  maxSteps : Option Nat
  trace : Bool
  json : Bool
  canonical : Bool
  deriving DecidableEq, Repr

/-- What a command line asks for. -/
inductive Invocation where
  | run (options : Options)
  | help
  | misuse
  deriving DecidableEq, Repr

/-- The text of `--help`. -/
def helpText : String :=
  "Runs inputs through a deterministic pushdown automaton\n\n" ++
  "Usage: dpda [OPTIONS] <DEFINITION> [INPUT]...\n\n" ++
  "Arguments:\n" ++
  "  <DEFINITION>  Automaton definition file\n" ++
  "  [INPUT]...    Inputs to run. Read one per line from stdin when none are given\n\n" ++
  "Options:\n" ++
  "      --max-steps <MAX_STEPS>  Give up on an input after this many transitions\n" ++
  "      --trace                  Print every transition taken\n" ++
  "      --json                   Print results, diagnostics and the canonical definition as JSON\n" ++
  "      --canonical              Print the loaded definition in canonical form before running\n" ++
  "  -h, --help                   Print help\n"

/-- What is said about a command line that is a mistake. -/
def usageText : String :=
  "error: these arguments are not understood\n\n" ++
  "Usage: dpda [OPTIONS] <DEFINITION> [INPUT]...\n\n" ++
  "For more information, try '--help'.\n"

end Pushdown
