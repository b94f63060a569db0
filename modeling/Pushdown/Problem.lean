/-
  Pushdown.Problem — what can be wrong with a definition, and the words for it.

  A problem is a cause; its severity, wording and notes are functions of the cause. A
  finding is a problem at a place.
-/

import Pushdown.Section
import Pushdown.Token

namespace Pushdown

/-- What a line of a definition should have gone on with. -/
inductive Expected where
  | word
  | comma
  | lineEnd
  deriving DecidableEq, Repr

def Expected.text : Expected → String
  | word => "ident"
  | comma => "','"
  | lineEnd => "eol"

/-- The two kinds of states that end a run. -/
inductive Halting where
  | final
  | rejecting
  deriving DecidableEq, Repr

def Halting.text : Halting → String
  | final => "final state"
  | rejecting => "rejecting state"

inductive Problem where
  -- of characters and lines
  | invalidChar (c : Char)
  | unexpected (got : Token) (expected : Expected)
  | replacementUnclosed
  | notATransition
  | headerTooShallow
  | notAHeader
  | notASection
  -- of sections
  | sectionRepeated (label : String)
  | sectionUnknown (label : String)
  | statesMissing
  | alphabetMissing
  | initialMissing
  | finalMissing
  | rejectingMissing
  | transitionsMissing
  -- of declarations
  | stateReserved (name : String)
  | stateRepeated
  | statesEmpty
  | letterIsStackEnd
  | letterTooLong
  | letterRepeated
  | alphabetEmpty
  | symbolReserved (name : String)
  | symbolRepeated
  | initialUndeclared
  | initialNotOne
  | haltingUndeclared (kind : Halting)
  | haltingRepeated (kind : Halting)
  | finalAndRejecting
  -- of transitions
  | transitionStateUndeclared
  | transitionLetterUndeclared
  | transitionLetterTooLong
  | inputEndOnStack
  /-- `listed`: whether the definition lists its stack symbols. -/
  | transitionSymbolUndeclared (listed : Bool)
  | stackEndMisplaced
  | transitionRepeated (previous : Span)
  deriving DecidableEq, Repr

namespace Problem

def message : Problem → String
  | invalidChar c => "lexer: InvalidChar(" ++ Text.Quoted.ofChar c ++ ")"
  | unexpected got expected => "unexpected " ++ got.found ++ " expected " ++ expected.text
  | replacementUnclosed => "unexpected eol expected list close ( ']' )"
  | notATransition => "expected transition (<letter>, <stack top>) -> <state> [<symbol>, ...]"
  | headerTooShallow => "state header is indented less than the previous state headers"
  | notAHeader => "expected state header '<state>:'"
  | notASection => "expected section '<label>: ...'"
  | sectionRepeated label => label ++ " already set"
  | sectionUnknown label =>
    "unknown section " ++ Text.Quoted.ofString label ++ ", expected " ++
      " | ".intercalate (SectionKind.all.map fun kind => "'" ++ kind.label ++ "'")
  | statesMissing => "states never defined"
  | alphabetMissing => "alphabet never defined"
  | initialMissing => "initial state never defined"
  | finalMissing => "final states never defined"
  | rejectingMissing =>
    "rejecting states never defined, inputs can only be rejected by getting stuck"
  | transitionsMissing => "transition function never defined"
  | stateReserved name => "'" ++ name ++ "' is reserved and cannot name a state"
  | stateRepeated => "state redefined"
  | statesEmpty => "states cannot be empty"
  | letterIsStackEnd => "STACK_END is reserved for the stack and cannot be a letter"
  | letterTooLong => "letter cannot be longer than one char"
  | letterRepeated => "letter redefined"
  | alphabetEmpty => "alphabet cannot be empty"
  | symbolReserved name => "'" ++ name ++ "' is reserved and cannot be declared as a stack symbol"
  | symbolRepeated => "stack symbol redefined"
  | initialUndeclared => "initial state not defined as a state"
  | initialNotOne => "initial state must be exactly one state"
  | haltingUndeclared kind => kind.text ++ " not defined in set of states"
  | haltingRepeated kind => kind.text ++ " redefined"
  | finalAndRejecting => "state is both final and rejecting, reaching it accepts"
  | transitionStateUndeclared => "transition state not defined as state"
  | transitionLetterUndeclared => "transition letter not defined in alphabet"
  | transitionLetterTooLong => "transition letter must be a single char or INPUT_END"
  | inputEndOnStack => "INPUT_END cannot be a stack symbol"
  | transitionSymbolUndeclared _ => "transition stack symbol not defined"
  | stackEndMisplaced => "STACK_END can only be pushed first, in place of a STACK_END stack top"
  | transitionRepeated _ =>
    "transition already defined for this starting point (non determinism not permitted)"

/-- Everything is an error but what leaves the meaning of the definition clear. -/
def severity : Problem → Severity
  | rejectingMissing => .warning
  | finalAndRejecting => .warning
  | _ => .error

private def help (message : String) : Remark := ⟨.help, message, none⟩

/-- What a report adds to a problem. -/
def notes : Problem → List Remark
  | notATransition => [help "an empty replacement is written as []"]
  | notAHeader => [help "transition lines must be indented under a state header"]
  | transitionSymbolUndeclared false =>
    [help "without a stack_alphabet section stack symbols must be letters of the alphabet"]
  | transitionRepeated previous => [⟨.info, "previously defined here", some previous⟩]
  | _ => []

end Problem

structure Finding where
  problem : Problem
  /-- None when the problem is that something is missing. -/
  place : Option Span
  deriving DecidableEq, Repr

namespace Finding

def entry (f : Finding) : Entry := ⟨⟨f.problem.severity, f.problem.message, f.place⟩, f.problem.notes⟩

def isError (f : Finding) : Bool := f.problem.severity == .error

end Finding

/-- A problem at a place. -/
def Problem.here (p : Problem) (place : Span) : Finding := ⟨p, some place⟩

/-- The problem that something is missing. -/
def Problem.nowhere (p : Problem) : Finding := ⟨p, none⟩

def Report.ofFindings (findings : List Finding) : Report := ofEntries (findings.map Finding.entry)

end Pushdown
