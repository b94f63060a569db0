/-
  Pushdown.Automaton.Check — sections checked against each other.

  Every check goes on after a problem, so that one definition shows all its problems at
  once: a name that is refused is left out, a name that stands twice keeps the later
  place, a transition with a fault is left out. The order of the findings is that of the
  checks: labels, states, alphabet, stack alphabet, initial, final, rejecting states, then
  the transitions as they stand. Without a section of transitions there is none to check.
-/

import Pushdown.Automaton
import Pushdown.Problem

namespace Pushdown

/-- The outcome of a check, and what it found wrong. -/
structure Checked (α : Type) where
  value : α
  findings : List Finding

/-! ## Labels -/

/-- The labels that are not known or stand for a section already seen. -/
def checkLabels (seen : List SectionKind) : List (Located Section) → List Finding
  | [] => []
  | s :: rest =>
    let label := s.value.label
    match s.value.kind? with
    | none => (Problem.sectionUnknown label.value).here label.span :: checkLabels seen rest
    | some kind =>
      if kind ∈ seen then
        (Problem.sectionRepeated label.value).here label.span :: checkLabels seen rest
      else checkLabels (kind :: seen) rest

/-- The names of the last list of a kind. -/
def lastNames (kind : SectionKind) (sections : List (Located Section)) : Option (Located (List Ident)) :=
  (sections.filterMap fun s => s.value.names? kind).getLast?

/-- The groups of the last section of transitions. -/
def lastGroups (sections : List (Located Section)) : Option (List (Located StateGroup)) :=
  (sections.filterMap fun s => s.value.groups?).getLast?

/-! ## Declarations -/

/-- Declares names in order: `accept` gives the key of a name or the reason to refuse it,
    and a key declared before is a `repeated` problem. -/
def declare {κ : Type} [DecidableEq κ] (accept : String → Except Problem κ) (repeated : Problem)
    (table : Table κ Span) : List Ident → Checked (Table κ Span)
  | [] => ⟨table, []⟩
  | name :: rest =>
    match accept name.value with
    | .error problem =>
      let later := declare accept repeated table rest
      ⟨later.value, problem.here name.span :: later.findings⟩
    | .ok key =>
      let later := declare accept repeated (table.insert key name.span) rest
      ⟨later.value,
        if table.contains key then repeated.here name.span :: later.findings else later.findings⟩

def acceptState (name : String) : Except Problem State :=
  if isReserved name then .error (.stateReserved name) else .ok ⟨name⟩

def acceptLetter (name : String) : Except Problem Letter :=
  match Letter.ofText? name with
  | some letter => .ok letter
  | none => .error (if name = stackEnd then .letterIsStackEnd else .letterTooLong)

def acceptSymbol (name : String) : Except Problem Symbol :=
  if isReserved name then .error (.symbolReserved name) else .ok ⟨name⟩

def acceptHalting (kind : Halting) (states : Table State Span) (name : String) : Except Problem State :=
  if states.contains ⟨name⟩ then .ok ⟨name⟩ else .error (.haltingUndeclared kind)

/-- A list that must be there and must not be empty. -/
def declareSome {κ : Type} [DecidableEq κ] (accept : String → Except Problem κ)
    (repeated missing empty : Problem) : Option (Located (List Ident)) → Checked (Table κ Span)
  | none => ⟨∅, [missing.nowhere]⟩
  | some names =>
    let declared := declare accept repeated ∅ names.value
    ⟨declared.value,
      declared.findings ++ if names.value.isEmpty then [empty.here names.span] else []⟩

def checkStates (names : Option (Located (List Ident))) : Checked (Table State Span) :=
  declareSome acceptState .stateRepeated .statesMissing .statesEmpty names

def checkAlphabet (names : Option (Located (List Ident))) : Checked (Table Letter Span) :=
  declareSome acceptLetter .letterRepeated .alphabetMissing .alphabetEmpty names

/-- The stack symbols may be left unlisted, and the list may be empty. -/
def checkStackAlphabet : Option (Located (List Ident)) → Checked (Option (Table Symbol Span))
  | none => ⟨none, []⟩
  | some names =>
    let declared := declare acceptSymbol .symbolRepeated ∅ names.value
    ⟨some declared.value, declared.findings⟩

def checkInitial (states : Table State Span) : Option (Located (List Ident)) → Checked (Option State)
  | none => ⟨none, [Problem.initialMissing.nowhere]⟩
  | some ⟨[name], _⟩ =>
    if states.contains ⟨name.value⟩ then ⟨some ⟨name.value⟩, []⟩
    else ⟨none, [Problem.initialUndeclared.here name.span]⟩
  | some ⟨_, place⟩ => ⟨none, [Problem.initialNotOne.here place]⟩

/-- Final or rejecting states: a list of declared states, maybe empty. -/
def checkHalting (kind : Halting) (missing : Problem) (states : Table State Span) :
    Option (Located (List Ident)) → Checked (Table State Span)
  | none => ⟨∅, [missing.nowhere]⟩
  | some names => declare (acceptHalting kind states) (.haltingRepeated kind) ∅ names.value

/-- The rejecting states that are final as well. -/
def checkOverlap (final rejecting : Table State Span) : List Finding :=
  (rejecting.entries.filter fun entry => final.contains entry.1).map fun entry =>
    Problem.finalAndRejecting.here entry.2

/-! ## Transitions -/

/-- The names that transitions may use. -/
structure Declared where
  states : Table State Span
  alphabet : Table Letter Span
  stackAlphabet : Option (Table Symbol Span)

namespace Declared

/-- A stack symbol is declared in the stack alphabet, or else is a one-character letter. -/
def hasSymbol (d : Declared) (s : Symbol) : Bool :=
  match d.stackAlphabet with
  | some symbols => symbols.contains s
  | none => match Letter.ofText? s.name with
    | some (.char c) => d.alphabet.contains (.char c)
    | _ => false

def state (d : Declared) (name : Ident) : Except Finding State :=
  if d.states.contains ⟨name.value⟩ then .ok ⟨name.value⟩
  else .error (Problem.transitionStateUndeclared.here name.span)

def letter (d : Declared) (name : Ident) : Except Finding Letter :=
  match Letter.ofText? name.value with
  | none => .error (Problem.transitionLetterTooLong.here name.span)
  | some l =>
    if d.alphabet.contains l then .ok l
    else .error (Problem.transitionLetterUndeclared.here name.span)

def stackSymbol (d : Declared) (name : Ident) : Except Finding StackSymbol :=
  if name.value = inputEnd then .error (Problem.inputEndOnStack.here name.span)
  else match StackSymbol.ofText name.value with
    | .stackEnd => .ok .stackEnd
    | .symbol s =>
      if d.hasSymbol s then .ok (.symbol s)
      else .error ((Problem.transitionSymbolUndeclared d.stackAlphabet.isSome).here name.span)

/-- A symbol of a replacement: the bottom can only be put back where it was seen, first of
    all. `bottomFits` says whether it may stand here. -/
def pushed (d : Declared) (bottomFits : Bool) (name : Ident) : Except Finding StackSymbol :=
  match d.stackSymbol name with
  | .ok .stackEnd =>
    if bottomFits then .ok .stackEnd else .error (Problem.stackEndMisplaced.here name.span)
  | other => other

/-- The symbols of a replacement of `top`, which is none when it is faulty itself. -/
def replacement (d : Declared) (top : Option StackSymbol) : List Ident → List (Except Finding StackSymbol)
  | [] => []
  | first :: rest => d.pushed (top == some .stackEnd) first :: rest.map (d.pushed false)

end Declared

/-- What is wrong with a part of a transition. -/
def fault? {α : Type} : Except Finding α → Option Finding
  | .ok _ => none
  | .error f => some f

/-- All values, if none is at fault. -/
def allOk? {α : Type} : List (Except Finding α) → Option (List α)
  | [] => some []
  | .ok a :: rest => (allOk? rest).map (a :: ·)
  | .error _ :: _ => none

/-- The situation and the move of a transition that leaves `state`, or all its faults. -/
def resolve (d : Declared) (state : State) (t : TransitionLine) :
    Except (List Finding) (Situation × Move) :=
  let letter := d.letter t.letter
  let top := d.stackSymbol t.top
  let next := d.state t.next
  let push := d.replacement top.toOption t.push.value
  match letter, top, next, allOk? push with
  | .ok letter, .ok top, .ok next, some push => .ok (⟨state, letter, top⟩, ⟨next, push⟩)
  | _, _, _, _ =>
    .error ((fault? letter).toList ++ (fault? top).toList ++ (fault? next).toList ++
      push.filterMap fault?)

/-- Adds the transitions that leave a state: a situation has one move, the first. -/
def checkTransitions (d : Declared) (state : State) (moves : Table Situation (Located Move)) :
    List (Located TransitionLine) → Checked (Table Situation (Located Move))
  | [] => ⟨moves, []⟩
  | line :: rest =>
    match resolve d state line.value with
    | .error faults =>
      let later := checkTransitions d state moves rest
      ⟨later.value, faults ++ later.findings⟩
    | .ok (situation, move) =>
      match moves.get? situation with
      | some previous =>
        let later := checkTransitions d state moves rest
        ⟨later.value, (Problem.transitionRepeated previous.span).here line.span :: later.findings⟩
      | none => checkTransitions d state (moves.insert situation ⟨move, line.span⟩) rest

/-- Adds the groups of a block; the transitions under a state that is not declared are
    left unchecked. -/
def checkGroups (d : Declared) (moves : Table Situation (Located Move)) :
    List (Located StateGroup) → Checked (Table Situation (Located Move))
  | [] => ⟨moves, []⟩
  | group :: rest =>
    match d.state group.value.state with
    | .error f =>
      let later := checkGroups d moves rest
      ⟨later.value, f :: later.findings⟩
    | .ok state =>
      let here := checkTransitions d state moves group.value.transitions
      let later := checkGroups d here.value rest
      ⟨later.value, here.findings ++ later.findings⟩

def checkMoves (d : Declared) :
    Option (List (Located StateGroup)) → Checked (Table Situation (Located Move))
  | none => ⟨∅, [Problem.transitionsMissing.nowhere]⟩
  | some groups => checkGroups d ∅ groups

/-! ## All sections -/

/-- What sections come to: all of an automaton but that the initial state may be missing. -/
structure Blueprint where
  states : Table State Span
  alphabet : Table Letter Span
  stackAlphabet : Option (Table Symbol Span)
  initial : Option State
  final : Table State Span
  rejecting : Table State Span
  moves : Table Situation Move

namespace Blueprint

/-- What is noted down of a definition without errors. -/
def summary (b : Blueprint) : Record :=
  ⟨.debug, "loaded automaton: " ++ Nat.repr b.states.size ++ " states, " ++
    Nat.repr b.alphabet.size ++ " letters, " ++ Nat.repr b.moves.size ++ " transitions"⟩

def automaton? (b : Blueprint) : Option Automaton :=
  b.initial.map fun start =>
    ⟨b.states, b.alphabet, b.stackAlphabet, start, b.final, b.rejecting, b.moves⟩

end Blueprint

/-- Checks all sections. What they come to is what they say only if nothing was found to be
    an error. -/
def checkSections (sections : List (Located Section)) : Checked Blueprint :=
  let states := checkStates (lastNames .states sections)
  let alphabet := checkAlphabet (lastNames .alphabet sections)
  let stackAlphabet := checkStackAlphabet (lastNames .stackAlphabet sections)
  let initial := checkInitial states.value (lastNames .initialState sections)
  let final := checkHalting .final .finalMissing states.value (lastNames .finalStates sections)
  let rejecting :=
    checkHalting .rejecting .rejectingMissing states.value (lastNames .rejectingStates sections)
  let moves := checkMoves ⟨states.value, alphabet.value, stackAlphabet.value⟩ (lastGroups sections)
  { value := ⟨states.value, alphabet.value, stackAlphabet.value, initial.value, final.value,
      rejecting.value, moves.value.mapValues Located.value⟩
    findings := checkLabels [] sections ++ states.findings ++ alphabet.findings ++
      stackAlphabet.findings ++ initial.findings ++ final.findings ++ rejecting.findings ++
      checkOverlap final.value rejecting.value ++ moves.findings }

end Pushdown
