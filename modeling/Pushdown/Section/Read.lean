/-
  Pushdown.Section.Read — lines as sections.

  A section is a line `label: name, ...`, or the line `transition_function:` and the block
  of lines under it that are indented more. The first line of the block sets the indent
  of state headers: a line as deep is a header, a deeper one is a transition of the
  header above it, a shallower one is out of place and opens nothing.

  A line that cannot be read is reported and left out, and reading goes on with the next:
  every line gives a part of a section or a finding. A transition under a line that
  should have been a header belongs to no group.
-/

import Pushdown.Line
import Pushdown.Problem

namespace Pushdown

/-! ## One line -/

/-- Names separated by commas, at least one; `stop` is where the list ends. -/
def readNames (stop : Span) : List (Located Token) → Except Finding (List Ident)
  | [] => .error ((Problem.unexpected .lineEnd .word).here stop)
  | ⟨.word name, place⟩ :: rest =>
    match rest with
    | [] => .ok [⟨name, place⟩]
    | ⟨.comma, _⟩ :: more => (readNames stop more).map (⟨name, place⟩ :: ·)
    | ⟨got, elsewhere⟩ :: _ => .error ((Problem.unexpected got .comma).here elsewhere)
  | ⟨got, place⟩ :: _ => .error ((Problem.unexpected got .word).here place)

/-- Names separated by commas, maybe none. -/
def readNameList (stop : Span) (tokens : List (Located Token)) : Except Finding (List Ident) :=
  if tokens.isEmpty then .ok [] else readNames stop tokens

/-- What follows the bracket that opens a replacement: the replacement itself and nothing
    else. `lineStop` is the end of the line. -/
def readReplacement (openBracket lineStop : Span) (tokens : List (Located Token)) :
    Except Finding (Located (List Ident)) :=
  match tokens.dropWhile (·.value != .bracketClose) with
  | [] => .error (Problem.replacementUnclosed.here lineStop)
  | close :: after =>
    match after with
    | extra :: _ => .error ((Problem.unexpected extra.value .lineEnd).here extra.span)
    | [] =>
      (readNameList (.point close.span.start) (tokens.takeWhile (·.value != .bracketClose))).map
        fun names => ⟨names, openBracket.join close.span⟩

/-- A line `(letter, top) -> next [push, ...]`. -/
def readTransition (line : Line) : Except Finding (Located TransitionLine) :=
  match line.tokens with
  | ⟨.parOpen, _⟩ :: ⟨.word letter, letterPlace⟩ :: ⟨.comma, _⟩ :: ⟨.word top, topPlace⟩ ::
      ⟨.parClose, _⟩ :: ⟨.arrow, _⟩ :: ⟨.word next, nextPlace⟩ :: ⟨.bracketOpen, bracket⟩ :: rest =>
    (readReplacement bracket line.stop rest).map fun push =>
      ⟨⟨⟨letter, letterPlace⟩, ⟨top, topPlace⟩, ⟨next, nextPlace⟩, push⟩, line.span⟩
  | _ => .error (Problem.notATransition.here line.span)

/-- A line `state:`. -/
def readHeader (line : Line) : Except Finding (Located Ident) :=
  match line.tokens with
  | [⟨.word state, place⟩, ⟨.colon, colon⟩] => .ok ⟨⟨state, place⟩, place.join colon⟩
  | _ => .error (Problem.notAHeader.here line.span)

/-! ## A block of transitions -/

/-- What a line of a block is: a header or a transition, or none because of a problem. A
    line that should have been a header closes the group above it. -/
inductive BlockLine where
  | header (state : Located Ident)
  | transition (t : Located TransitionLine)
  | badHeader (finding : Finding)
  | badTransition (finding : Finding)
  deriving DecidableEq, Repr

namespace BlockLine

/-- Reads a line of a block whose headers are indented by `headerIndent`. -/
def read (headerIndent : Nat) (line : Line) : BlockLine :=
  if headerIndent < line.indent then
    match readTransition line with
    | .ok t => transition t
    | .error f => badTransition f
  else if line.indent < headerIndent then badHeader (Problem.headerTooShallow.here line.span)
  else match readHeader line with
    | .ok state => header state
    | .error f => badHeader f

def finding? : BlockLine → Option Finding
  | header _ => none
  | transition _ => none
  | badHeader f => some f
  | badTransition f => some f

end BlockLine

/-- The group of a header; its place reaches from the header to its last transition. -/
def StateGroup.of (state : Located Ident) (transitions : List (Located TransitionLine)) :
    Located StateGroup :=
  ⟨⟨state.value, transitions⟩, transitions.foldl (fun place t => place.join t.span) state.span⟩

/-- The transitions that come before the first header of a block, and the groups. -/
def groupLines : List BlockLine → List (Located TransitionLine) × List (Located StateGroup)
  | [] => ([], [])
  | line :: rest =>
    let below := groupLines rest
    match line with
    | .header state => ([], StateGroup.of state below.1 :: below.2)
    | .transition t => (t :: below.1, below.2)
    | .badHeader _ => ([], below.2)
    | .badTransition _ => below

/-- The lines of a block, as headers and transitions: its first line sets the indent. -/
def readBlock (block : List Line) : List BlockLine :=
  match block with
  | [] => []
  | first :: _ => block.map (BlockLine.read first.indent)

/-! ## All lines -/

/-- Sections and what was found wrong on the way, in order. -/
structure Reading where
  sections : List (Located Section)
  findings : List Finding
  deriving DecidableEq, Repr

namespace Reading

def empty : Reading := ⟨[], []⟩

/-- What is read first comes first. -/
def append (a b : Reading) : Reading := ⟨a.sections ++ b.sections, a.findings ++ b.findings⟩

instance : Append Reading := ⟨append⟩

end Reading

/-- A section on one line, after its label and colon. -/
def readList (line : Line) (label : Ident) (colon : Span) (tokens : List (Located Token)) : Reading :=
  match readNameList line.stop tokens with
  | .error f => ⟨[], [f]⟩
  | .ok names =>
    let place := match names.head?, names.getLast? with
      | some first, some last => first.span.join last.span
      | _, _ => .point colon.stop
    ⟨[⟨.list label ⟨names, place⟩, line.span⟩], []⟩

/-- The section of transitions with its block; `extra` is what its first line holds after
    the colon. -/
def readTransitions (label : Span) (extra : List (Located Token)) (block : List Line) : Reading :=
  let lines := readBlock block
  let place := block.foldl (fun place line => place.join line.span) label
  let unexpected := extra.head?.map fun t => (Problem.unexpected t.value .lineEnd).here t.span
  ⟨[⟨.transitions ⟨SectionKind.transitionFunction.label, label⟩ (groupLines lines).2, place⟩],
    unexpected.toList ++ lines.filterMap BlockLine.finding?⟩

/-- Whether a line opens the section of transitions. -/
def Line.opensTransitions (line : Line) : Bool :=
  match line.tokens with
  | ⟨.word name, _⟩ :: ⟨.colon, _⟩ :: _ => name == SectionKind.transitionFunction.label
  | _ => false

/-- The lines under a line: those up to the next that is not indented more. -/
def blockUnder (line : Line) (rest : List Line) : List Line :=
  rest.takeWhile fun below => line.indent < below.indent

/-- The lines after the block under a line. -/
def afterBlock (line : Line) (rest : List Line) : List Line :=
  rest.dropWhile fun below => line.indent < below.indent

theorem afterBlock_length_le (line : Line) (rest : List Line) :
    (afterBlock line rest).length ≤ rest.length :=
  (List.dropWhile_sublist _).length_le

/-- Reads the section that a line begins, given the lines of the block under it. -/
def readSection (line : Line) (block : List Line) : Reading :=
  match line.tokens with
  | ⟨.word name, label⟩ :: ⟨.colon, colon⟩ :: tokens =>
    if name = SectionKind.transitionFunction.label then readTransitions label tokens block
    else readList line ⟨name, label⟩ colon tokens
  | _ => ⟨[], [Problem.notASection.here line.span]⟩

/-- Reads all sections: only that of transitions takes the block under its line. -/
def readSections (lines : List Line) : Reading :=
  match lines with
  | [] => .empty
  | line :: rest =>
    if line.opensTransitions then
      readSection line (blockUnder line rest) ++ readSections (afterBlock line rest)
    else readSection line [] ++ readSections rest
termination_by lines.length
decreasing_by
  · exact Nat.lt_succ_of_le (afterBlock_length_le line rest)
  · exact Nat.lt_succ_self _

/-- Reads a whole definition: the characters that belong to no token are found first. -/
def readDefinition (source : String) : Reading :=
  let lexemes := scan source
  ⟨[], (invalidChars lexemes).map fun c => (Problem.invalidChar c.value).here c.span⟩ ++
    readSections (linesOf lexemes)

end Pushdown
