/-
  Pushdown.Simulation — one input on its way through an automaton.

  A step looks at the state, the next character and the stack top, and takes the one move
  there is. It ends with a verdict when it enters a final or a rejecting state (final
  wins), or when there is no move. The first state is never tested. A step answers whether
  the simulation has halted; after a verdict it answers that verdict and changes nothing.
-/

import Pushdown.Automaton
import Pushdown.Journal
import Pushdown.Stack
import Pushdown.Text.Offset

namespace Pushdown

inductive Verdict where
  /-- A final state was entered. -/
  | accepted
  /-- A rejecting state was entered. -/
  | rejected
  /-- There was no move. -/
  | stuck
  deriving DecidableEq, Repr

def Verdict.text : Verdict → String
  | accepted => "Accepted"
  | rejected => "Rejected"
  | stuck => "Stuck"

structure Configuration where
  state : State
  stack : Stack
  /-- The byte offset of the next character of the input. -/
  position : Nat
  deriving DecidableEq, Repr

/-- A move that was taken, and where. -/
structure Step where
  situation : Situation
  move : Move
  deriving DecidableEq, Repr

def Step.text (s : Step) : String :=
  s.situation.state.name ++ ": " ++ s.situation.text ++ " -> " ++ s.move.text

/-- What a simulation notes down. -/
inductive Event where
  | moved (step : Step)
  | noMove (situation : Situation)
  | ended (verdict : Verdict) (state : State) (steps : Nat)
  deriving DecidableEq, Repr

/-- Moves, and the lack of one, are for tracing; the end of a run is for debugging. -/
def Event.record : Event → Record
  | moved step => ⟨.trace, step.text⟩
  | noMove s => ⟨.trace, s.state.name ++ ": no transition for " ++ s.text⟩
  | ended v state steps =>
    ⟨.debug, v.text ++ " in " ++ state.name ++ " after " ++ Nat.repr steps ++ " steps"⟩

structure Simulation where
  automaton : Automaton
  /-- What is left of the input. -/
  unread : List Char
  configuration : Configuration
  /-- The steps taken, the first one first. -/
  past : Array Step
  verdict : Option Verdict
  /-- What was noted down, in order. -/
  events : Array Event

/-- What a step answers. -/
inductive Progress where
  | pending
  | halted (verdict : Verdict)
  deriving DecidableEq, Repr

/-- What is left of an input that reached a verdict. -/
structure Run where
  verdict : Verdict
  trace : List Step
  configuration : Configuration
  deriving DecidableEq, Repr

namespace Simulation

/-- Before the first step: nothing is read and nothing lies on the stack. -/
def start (a : Automaton) (input : String) : Simulation :=
  ⟨a, input.toList, ⟨a.initial, .empty, 0⟩, #[], none, #[]⟩

/-- The letter that the next step reads. -/
def letter (s : Simulation) : Letter :=
  match s.unread with
  | [] => .inputEnd
  | c :: _ => .char c

def situation (s : Simulation) : Situation :=
  ⟨s.configuration.state, s.letter, s.configuration.stack.top⟩

/-- The move that the next step takes. -/
def move? (s : Simulation) : Option Move := s.automaton.move? s.situation

def trace (s : Simulation) : List Step := s.past.toList

def journal (s : Simulation) : List Record := s.events.toList.map Event.record

def note (s : Simulation) (e : Event) : Simulation := { s with events := s.events.push e }

/-- Ends with a verdict, where it stands, and answers it. -/
def halt (s : Simulation) (v : Verdict) : Progress × Simulation :=
  (.halted v, { s.note (.ended v s.configuration.state s.past.size) with verdict := some v })

/-- Takes a move: a character is used up, the end of the input stays where it is. -/
def take (s : Simulation) (m : Move) : Simulation :=
  { s with
    unread := s.unread.tail
    configuration :=
      { state := m.state
        stack := s.configuration.stack.replaceTop m.push
        position := s.configuration.position + Text.byteLength (s.unread.take 1) }
    past := s.past.push ⟨s.situation, m⟩ }

/-- One step: the move there is, or the verdict that there is none. -/
def step (s : Simulation) : Progress × Simulation :=
  match s.verdict with
  | some v => (.halted v, s)
  | none =>
    match s.move? with
    | none => (s.note (.noMove s.situation)).halt .stuck
    | some m =>
      let next := (s.note (.moved ⟨s.situation, m⟩)).take m
      if s.automaton.isFinal m.state then next.halt .accepted
      else if s.automaton.isRejecting m.state then next.halt .rejected
      else (.pending, next)

/-- The run that a verdict ends here. -/
def toRun (s : Simulation) (v : Verdict) : Run := ⟨v, s.trace, s.configuration⟩

/-- The run of a simulation that has halted. -/
def finish (s : Simulation) : Option Run := s.verdict.map s.toRun

end Simulation

/-- The trace, a step a line, and how it ended. -/
def Run.text (r : Run) : String :=
  String.join (r.trace.map fun step => step.text ++ "\n") ++
    r.verdict.text ++ " in " ++ r.configuration.state.name ++ " with stack " ++ r.configuration.stack.text

/-! ## JSON forms -/

def Step.toJson (s : Step) : Json := .object
  [("from", s.situation.toJson), ("to", s.move.toJson)]

def Configuration.toJson (c : Configuration) : Json := .object
  [("state", .string c.state.name), ("stack", .ofList (fun s => .string s.name) c.stack.symbols),
    ("position", .number c.position)]

def Run.toJson (r : Run) : Json := .object
  [("verdict", .string r.verdict.text), ("trace", .ofList Step.toJson r.trace),
    ("configuration", r.configuration.toJson)]

end Pushdown
