/-
  Pushdown.Proofs.Relocation — the same definition at other places.

  When a text is laid out anew, what is read from it stands at other offsets. A relocation
  says where each offset has gone and keeps the order of offsets; it moves all that holds
  places, from tokens to findings and automata. Places are only joined and cut at their
  ends on the way, which commutes with that (`join_move`, `point_move`).

  A line comes with an indent besides its places. It is compared with the indents of other
  lines and never used otherwise, so that it may be changed as long as all lines keep their
  order (`KeepsOrder`).
-/

import Mathlib.Order.MinMax
import Pushdown.Definition
import Pushdown.Line

namespace Pushdown

/-- Where the offsets of a text have gone. -/
structure Relocation where
  offset : Nat → Nat
  mono : Monotone offset

/-- Gives up all places. -/
def Relocation.nowhere : Relocation := ⟨fun _ => 0, monotone_const⟩

section Definitions

variable (m : Relocation)

def Span.move (s : Span) : Span := ⟨m.offset s.start, m.offset s.stop⟩

/-- Moves a value that holds no places itself. -/
def Located.move {α : Type} (l : Located α) : Located α := ⟨l.value, l.span.move m⟩

/-- Moves a value together with the places in it. -/
def Located.moveWith {α : Type} (inner : α → α) (l : Located α) : Located α := ⟨inner l.value, l.span.move m⟩

def TransitionLine.move (t : TransitionLine) : TransitionLine where
  letter := t.letter.move m
  top := t.top.move m
  next := t.next.move m
  push := t.push.moveWith m (List.map (Located.move m))

def StateGroup.move (g : StateGroup) : StateGroup where
  state := g.state.move m
  transitions := g.transitions.map (Located.moveWith m (TransitionLine.move m))

def Section.move : Section → Section
  | .list label items => .list (label.move m) (items.moveWith m (List.map (Located.move m)))
  | .transitions label groups => .transitions (label.move m) (groups.map (Located.moveWith m (StateGroup.move m)))

/-- Only a transition that stands twice points to a place of its own. -/
def Problem.move : Problem → Problem
  | .transitionRepeated previous => .transitionRepeated (previous.move m)
  | problem => problem

def Finding.move (f : Finding) : Finding := ⟨f.problem.move m, f.place.map (Span.move m)⟩

def Reading.move (r : Reading) : Reading :=
  ⟨r.sections.map (Located.moveWith m (Section.move m)), r.findings.map (Finding.move m)⟩

/-- What was read, or the finding instead of it. -/
def moveResult {α : Type} (inner : α → α) : Except Finding α → Except Finding α
  | .ok a => .ok (inner a)
  | .error f => .error (f.move m)

def Checked.move {α : Type} (inner : α → α) (c : Checked α) : Checked α :=
  ⟨inner c.value, c.findings.map (Finding.move m)⟩

def Declared.move (d : Declared) : Declared where
  states := d.states.mapValues (Span.move m)
  alphabet := d.alphabet.mapValues (Span.move m)
  stackAlphabet := d.stackAlphabet.map (Table.mapValues (Span.move m))

def Automaton.move (a : Automaton) : Automaton where
  states := a.states.mapValues (Span.move m)
  alphabet := a.alphabet.mapValues (Span.move m)
  stackAlphabet := a.stackAlphabet.map (Table.mapValues (Span.move m))
  initial := a.initial
  final := a.final.mapValues (Span.move m)
  rejecting := a.rejecting.mapValues (Span.move m)
  moves := a.moves

def Blueprint.move (b : Blueprint) : Blueprint where
  states := b.states.mapValues (Span.move m)
  alphabet := b.alphabet.mapValues (Span.move m)
  stackAlphabet := b.stackAlphabet.map (Table.mapValues (Span.move m))
  initial := b.initial
  final := b.final.mapValues (Span.move m)
  rejecting := b.rejecting.mapValues (Span.move m)
  moves := b.moves

def Definition.move (d : Definition) : Definition :=
  ⟨d.findings.map (Finding.move m), d.automaton.map (Automaton.move m)⟩

/-- A line at another place, indented by what its indent is changed to. -/
def Line.move (indent : Nat → Nat) (l : Line) : Line where
  indent := indent l.indent
  tokens := l.tokens.map (Located.move m)
  tokens_ne_nil := by simpa using l.tokens_ne_nil

end Definitions

/-- New indents are ordered as the old ones are, as far as they are those of some lines. -/
def KeepsOrder (indent : Nat → Nat) (lines : List Line) : Prop :=
  ∀ l ∈ lines, ∀ l' ∈ lines, indent l.indent < indent l'.indent ↔ l.indent < l'.indent

theorem KeepsOrder.subset {indent : Nat → Nat} {lines lines' : List Line} (h : KeepsOrder indent lines)
    (hs : lines' ⊆ lines) : KeepsOrder indent lines' :=
  fun l hl l' hl' => h l (hs hl) l' (hs hl')

/-! ## Places -/

section Places

variable {m : Relocation}

@[simp] theorem Span.join_move (a b : Span) : (a.move m).join (b.move m) = (a.join b).move m := by
  simp only [join, move, m.mono.map_min, m.mono.map_max]

@[simp] theorem Span.point_move (offset : Nat) : Span.point (m.offset offset) = (Span.point offset).move m := rfl

@[simp] theorem Span.start_move (s : Span) : (s.move m).start = m.offset s.start := rfl

@[simp] theorem Span.stop_move (s : Span) : (s.move m).stop = m.offset s.stop := rfl

@[simp] theorem Located.value_move {α : Type} (l : Located α) : (l.move m).value = l.value := rfl

@[simp] theorem Located.span_move {α : Type} (l : Located α) : (l.move m).span = l.span.move m := rfl

@[simp] theorem Located.value_moveWith {α : Type} (inner : α → α) (l : Located α) :
    (l.moveWith m inner).value = inner l.value := rfl

@[simp] theorem Located.span_moveWith {α : Type} (inner : α → α) (l : Located α) :
    (l.moveWith m inner).span = l.span.move m := rfl

theorem Span.foldl_join_move {α : Type} (place : Span) (spans : List α) (f : α → Span) :
    (spans.foldl (fun place a => place.join ((f a).move m)) (place.move m)) =
      (spans.foldl (fun place a => place.join (f a)) place).move m := by
  induction spans generalizing place with
  | nil => rfl
  | cons a rest ih => rw [List.foldl_cons, List.foldl_cons, join_move, ih]

variable {indent : Nat → Nat}

@[simp] theorem Line.tokens_move (l : Line) : (l.move m indent).tokens = l.tokens.map (Located.move m) := rfl

@[simp] theorem Line.indent_move (l : Line) : (l.move m indent).indent = indent l.indent := rfl

@[simp] theorem Line.span_move (l : Line) : (l.move m indent).span = l.span.move m := by
  simp [Line.span]

@[simp] theorem Line.stop_move (l : Line) : (l.move m indent).stop = l.stop.move m := by
  simp [Line.stop]

end Places

/-! ## Findings -/

section Findings

variable {m : Relocation}

@[simp] theorem Problem.message_move (p : Problem) : (p.move m).message = p.message := by
  cases p <;> rfl

@[simp] theorem Problem.severity_move (p : Problem) : (p.move m).severity = p.severity := by
  cases p <;> rfl

@[simp] theorem Finding.isError_move (f : Finding) : (f.move m).isError = f.isError := by
  simp [isError, move]

theorem any_isError_move (findings : List Finding) :
    (findings.map (Finding.move m)).any Finding.isError = findings.any Finding.isError := by
  simp [List.any_map, Function.comp_def]

end Findings

end Pushdown
