/-
  Pushdown.Automaton — deterministic pushdown automata.

  An automaton has at most one move for each situation: a state, the letter read and the
  symbol seen on top of the stack. Every name keeps the place where it was declared.
-/

import Pushdown.Json
import Pushdown.Vocabulary
import Pushdown.Report
import Pushdown.Table

namespace Pushdown

/-- What decides the next move. -/
structure Situation where
  state : State
  letter : Letter
  top : StackSymbol
  deriving DecidableEq, Repr

/-- What a move does: the state it enters and what it puts in place of the stack top,
    bottom first. A leading `STACK_END` only says again that the bottom stays. -/
structure Move where
  state : State
  push : List StackSymbol
  deriving DecidableEq, Repr

structure Automaton where
  states : Table State Span
  alphabet : Table Letter Span
  /-- None when the letters of the alphabet are the stack symbols. -/
  stackAlphabet : Option (Table Symbol Span)
  initial : State
  final : Table State Span
  rejecting : Table State Span
  moves : Table Situation Move
  deriving DecidableEq, Repr

namespace Automaton

def move? (a : Automaton) (s : Situation) : Option Move := a.moves.get? s

def isFinal (a : Automaton) (s : State) : Bool := a.final.contains s

def isRejecting (a : Automaton) (s : State) : Bool := a.rejecting.contains s

end Automaton

/-! ## Texts -/

/-- The situation without its state, which stands before it where it matters. -/
def Situation.text (s : Situation) : String := "(" ++ s.letter.text ++ ", " ++ s.top.text ++ ")"

def Move.text (m : Move) : String :=
  m.state.name ++ " [" ++ ", ".intercalate (m.push.map StackSymbol.text) ++ "]"

/-! ## JSON forms -/

namespace Letter

def toJson (l : Letter) : Json := .string l.text

end Letter

namespace StackSymbol

def toJson (s : StackSymbol) : Json := .string s.text

end StackSymbol

def Situation.toJson (s : Situation) : Json := .object
  [("state", .string s.state.name), ("letter", s.letter.toJson), ("top", s.top.toJson)]

def Move.toJson (m : Move) : Json := .object
  [("state", .string m.state.name), ("push", .ofList StackSymbol.toJson m.push)]

/-- What is known about a declared name. -/
def declarationToJson (place : Span) : Json := .object [("definition", place.toJson)]

/-- A table whose keys are names, as an object. -/
def Table.toJsonObject {κ : Type} (name : κ → String) (t : Table κ Span) : Json :=
  .object (t.entries.map fun entry => (name entry.1, declarationToJson entry.2))

/-- A table as a list of pairs. -/
def Table.toJsonPairs {κ α : Type} (key : κ → Json) (value : α → Json) (t : Table κ α) : Json :=
  .ofList (fun entry => .array [key entry.1, value entry.2]) t.entries

def Automaton.toJson (a : Automaton) : Json := .object
  [("states", a.states.toJsonObject State.name),
    ("alphabet", a.alphabet.toJsonPairs Letter.toJson declarationToJson),
    ("stack_alphabet", .ofOption (Table.toJsonObject Symbol.name) a.stackAlphabet),
    ("initial_state", .string a.initial.name),
    ("final_states", a.final.toJsonObject State.name),
    ("rejecting_states", a.rejecting.toJsonObject State.name),
    ("transitions", a.moves.toJsonPairs Situation.toJson Move.toJson)]

end Pushdown
