/-
  Pushdown.Section — the sections of a definition as they are written, before anything is
  checked: labelled lists of names, and the transitions grouped by the state they leave.
-/

import Pushdown.Json
import Pushdown.Report

namespace Pushdown

/-- `(letter, top) -> next [push, ...]` -/
structure TransitionLine where
  letter : Ident
  top : Ident
  next : Ident
  /-- The replacement; its place is that of the brackets. -/
  push : Located (List Ident)
  deriving DecidableEq, Repr

/-- A state header and the transitions under it. -/
structure StateGroup where
  state : Ident
  transitions : List (Located TransitionLine)
  deriving DecidableEq, Repr

inductive Section where
  /-- `label: name, ...` on one line; the names may be missing. -/
  | list (label : Ident) (items : Located (List Ident))
  /-- `transition_function:` and the block under it. -/
  | transitions (label : Ident) (groups : List (Located StateGroup))
  deriving DecidableEq, Repr

/-- The sections that a definition is made of. -/
inductive SectionKind where
  | states
  | alphabet
  | stackAlphabet
  | initialState
  | finalStates
  | rejectingStates
  | transitionFunction
  deriving DecidableEq, Repr

namespace SectionKind

/-- All kinds, in the order they are offered and written. -/
def all : List SectionKind :=
  [states, alphabet, stackAlphabet, initialState, finalStates, rejectingStates, transitionFunction]

def label : SectionKind → String
  | states => "states"
  | alphabet => "alphabet"
  | stackAlphabet => "stack_alphabet"
  | initialState => "initial_state"
  | finalStates => "final_states"
  | rejectingStates => "rejecting_states"
  | transitionFunction => "transition_function"

/-- The kind of a list with a label; transitions are no list. -/
def ofListLabel? (label : String) : Option SectionKind :=
  all.find? fun kind => kind != transitionFunction && kind.label == label

end SectionKind

namespace Section

def label : Section → Ident
  | list label _ => label
  | transitions label _ => label

/-- The kind of a section; none when its label is not known. -/
def kind? : Section → Option SectionKind
  | list label _ => SectionKind.ofListLabel? label.value
  | transitions _ _ => some .transitionFunction

/-- The names of a section, if it is a list of this kind. -/
def names? (kind : SectionKind) : Section → Option (Located (List Ident))
  | list label items => if SectionKind.ofListLabel? label.value = some kind then some items else none
  | transitions _ _ => none

/-- The groups of a section, if it is one of transitions. -/
def groups? : Section → Option (List (Located StateGroup))
  | list _ _ => none
  | transitions _ groups => some groups

end Section

/-! ## JSON forms -/

def Ident.toJson (i : Ident) : Json := .array [.string i.value, i.span.toJson]

def TransitionLine.toJson (t : Located TransitionLine) : Json := .object
  [("letter", Ident.toJson t.value.letter), ("top", Ident.toJson t.value.top),
    ("next", Ident.toJson t.value.next), ("push", .ofList Ident.toJson t.value.push.value),
    ("push_span", t.value.push.span.toJson), ("span", t.span.toJson)]

def StateGroup.toJson (g : Located StateGroup) : Json := .object
  [("state", Ident.toJson g.value.state), ("span", g.span.toJson),
    ("transitions", .ofList TransitionLine.toJson g.value.transitions)]

def Section.toJson (s : Located Section) : Json :=
  match s.value with
  | .list label items => .object
      [("kind", .string "list"), ("label", Ident.toJson label),
        ("items", .ofList Ident.toJson items.value), ("items_span", items.span.toJson),
        ("span", s.span.toJson)]
  | .transitions label groups => .object
      [("kind", .string "transition_function"), ("label", Ident.toJson label),
        ("span", s.span.toJson), ("groups", .ofList StateGroup.toJson groups)]

end Pushdown
