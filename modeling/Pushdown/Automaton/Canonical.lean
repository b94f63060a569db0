/-
  Pushdown.Automaton.Canonical — the one way an automaton is written: its sections in a
  fixed order, its moves under their states in the order the states are listed. A state
  without moves has no header.
-/

import Pushdown.Automaton
import Pushdown.Section

namespace Pushdown

/-- A line `label: name, ...`; without names it ends at the colon. -/
def listLine (kind : SectionKind) (names : List String) : String :=
  kind.label ++ ":" ++ if names.isEmpty then "" else " " ++ ", ".intercalate names

namespace Automaton

/-- The moves that leave a state, in order. -/
def movesFrom (a : Automaton) (s : State) : List (Situation × Move) :=
  a.moves.entries.filter fun entry => entry.1.state = s

/-- A state header and the moves under it. -/
def groupLines (a : Automaton) (s : State) : List String :=
  match a.movesFrom s with
  | [] => []
  | moves => ("    " ++ s.name ++ ":") ::
      moves.map fun entry => "        " ++ entry.1.text ++ " -> " ++ entry.2.text

def canonicalLines (a : Automaton) : List String :=
  [listLine .states (a.states.keys.map State.name),
    listLine .alphabet (a.alphabet.keys.map Letter.text)] ++
  (a.stackAlphabet.map fun symbols => listLine .stackAlphabet (symbols.keys.map Symbol.name)).toList ++
  [listLine .initialState [a.initial.name],
    listLine .finalStates (a.final.keys.map State.name),
    listLine .rejectingStates (a.rejecting.keys.map State.name),
    listLine .transitionFunction []] ++
  a.states.keys.flatMap a.groupLines

/-- The canonical text: every line ends with a line feed. -/
def canonical (a : Automaton) : String := String.join (a.canonicalLines.map (· ++ "\n"))

end Automaton

end Pushdown
