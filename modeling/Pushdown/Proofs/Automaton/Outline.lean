/-
  Pushdown.Proofs.Automaton.Outline — what sections say, and when it makes sense.

  An outline is what is left of sections without their places and their order: the names
  under each label, and the rules, one for each transition line. `Complete` counts the
  sections; `Outline.WellFormed` relates the names to each other; `Describes` says which
  automaton the sections then stand for, entry by entry, with the places of the names.
-/

import Pushdown.Automaton
import Pushdown.Section

namespace Pushdown

/-- A transition as names. -/
structure Rule where
  state : String
  letter : String
  top : String
  next : String
  push : List String
  deriving DecidableEq

structure Outline where
  states : List String
  alphabet : List String
  /-- None when no section lists the stack symbols. -/
  stackAlphabet : Option (List String)
  initial : List String
  final : List String
  rejecting : List String
  /-- The states that groups of transitions stand under. -/
  headers : List String
  rules : List Rule

/-! ## The sections of a definition -/

/-- The lists under a label. -/
def listsUnder (label : String) (sections : List (Located Section)) : List (Located (List Ident)) :=
  sections.filterMap fun s => match s.value with
    | .list l items => if l.value = label then some items else none
    | .transitions _ _ => none

/-- The names under a label. -/
def namesUnder (label : String) (sections : List (Located Section)) : List Ident :=
  (listsUnder label sections).flatMap Located.value

/-- The blocks of transitions. -/
def blocksOf (sections : List (Located Section)) : List (List (Located StateGroup)) :=
  sections.filterMap fun s => s.value.groups?

/-- Every section is known and every section that must be there is, and none twice. -/
structure Complete (sections : List (Located Section)) : Prop where
  labels : ∀ s ∈ sections, ∀ label items, s.value = .list label items →
    label.value ∈ ["states", "alphabet", "stack_alphabet", "initial_state", "final_states", "rejecting_states"]
  states : (listsUnder "states" sections).length = 1
  alphabet : (listsUnder "alphabet" sections).length = 1
  stackAlphabet : (listsUnder "stack_alphabet" sections).length ≤ 1
  initial : (listsUnder "initial_state" sections).length = 1
  final : (listsUnder "final_states" sections).length = 1
  rejecting : (listsUnder "rejecting_states" sections).length ≤ 1
  transitions : (blocksOf sections).length = 1

namespace Rule

/-- The rule of a transition under a state. -/
def ofTransition (state : String) (t : TransitionLine) : Rule :=
  ⟨state, t.letter.value, t.top.value, t.next.value, t.push.value.map Located.value⟩

def ofGroup (g : StateGroup) : List Rule :=
  g.transitions.map fun t => ofTransition g.state.value t.value

/-- The move of a rule, if its letter is one. -/
def meaning? (r : Rule) : Option (Situation × Move) :=
  (Letter.ofText? r.letter).map fun letter =>
    (⟨⟨r.state⟩, letter, StackSymbol.ofText r.top⟩, ⟨⟨r.next⟩, r.push.map StackSymbol.ofText⟩)

end Rule

def namesIn (names : List Ident) : List String := names.map Located.value

/-- What sections say. -/
def Outline.ofSections (sections : List (Located Section)) : Outline where
  states := namesIn (namesUnder "states" sections)
  alphabet := namesIn (namesUnder "alphabet" sections)
  stackAlphabet := (listsUnder "stack_alphabet" sections).head?.map (namesIn ·.value)
  initial := namesIn (namesUnder "initial_state" sections)
  final := namesIn (namesUnder "final_states" sections)
  rejecting := namesIn (namesUnder "rejecting_states" sections)
  headers := (blocksOf sections).flatten.map fun g => g.value.state.value
  rules := (blocksOf sections).flatten.flatMap fun g => Rule.ofGroup g.value

/-! ## Well-formed outlines -/

namespace Outline

/-- A stack symbol is listed as one, or else is a letter of one character. -/
def HasSymbol (o : Outline) (name : String) : Prop :=
  match o.stackAlphabet with
  | some symbols => name ∈ symbols
  | none => name ∈ o.alphabet ∧ name.length = 1

/-- The names of a rule are declared; the bottom of the stack may be seen, and put back
    first of all where it was seen. -/
structure Allows (o : Outline) (r : Rule) : Prop where
  letter : r.letter ∈ o.alphabet
  next : r.next ∈ o.states
  top : r.top = "STACK_END" ∨ o.HasSymbol r.top
  first : ∀ s ∈ r.push.head?, o.HasSymbol s ∨ s = "STACK_END" ∧ r.top = "STACK_END"
  rest : ∀ s ∈ r.push.tail, o.HasSymbol s

theorem Allows.push {o : Outline} {r : Rule} (h : o.Allows r) :
    ∀ s ∈ r.push, o.HasSymbol s ∨ s = "STACK_END" := by
  intro s hs
  have hfirst := h.first
  have hrest := h.rest
  cases hp : r.push with
  | nil => simp [hp] at hs
  | cons first rest =>
    rw [hp] at hs hfirst hrest
    rcases List.mem_cons.mp hs with rfl | hs
    · exact (hfirst s rfl).imp_right And.left
    · exact Or.inl (hrest s hs)

structure WellFormed (o : Outline) : Prop where
  states_ne_nil : o.states ≠ []
  states_nodup : o.states.Nodup
  states_free : ∀ q ∈ o.states, q ≠ "STACK_END" ∧ q ≠ "INPUT_END"
  alphabet_ne_nil : o.alphabet ≠ []
  alphabet_nodup : o.alphabet.Nodup
  letters : ∀ l ∈ o.alphabet, l = "INPUT_END" ∨ l.length = 1
  symbols_nodup : ∀ symbols ∈ o.stackAlphabet, symbols.Nodup
  symbols_free : ∀ symbols ∈ o.stackAlphabet, ∀ s ∈ symbols, s ≠ "STACK_END" ∧ s ≠ "INPUT_END"
  initial : ∃ q ∈ o.states, o.initial = [q]
  final_nodup : o.final.Nodup
  final_states : ∀ q ∈ o.final, q ∈ o.states
  rejecting_nodup : o.rejecting.Nodup
  rejecting_states : ∀ q ∈ o.rejecting, q ∈ o.states
  headers : ∀ q ∈ o.headers, q ∈ o.states
  rules : ∀ r ∈ o.rules, o.Allows r
  /-- One rule for a state, a letter and a stack top. -/
  deterministic : (o.rules.map fun r => (r.state, r.letter, r.top)).Nodup

end Outline

/-- Sections that make sense. -/
structure WellFormed (sections : List (Located Section)) : Prop where
  complete : Complete sections
  outline : (Outline.ofSections sections).WellFormed

/-! ## The automaton of sections -/

/-- The keys of a table as the names that declare them. -/
def Table.idents {κ : Type} (text : κ → String) (t : Table κ Span) : List Ident :=
  t.entries.map fun entry => ⟨text entry.1, entry.2⟩

/-- An automaton is exactly what sections say, in their order. -/
structure Describes (sections : List (Located Section)) (a : Automaton) : Prop where
  states : a.states.idents State.name = namesUnder "states" sections
  alphabet : a.alphabet.idents Letter.text = namesUnder "alphabet" sections
  stackAlphabet : a.stackAlphabet.map (Table.idents Symbol.name) =
    (listsUnder "stack_alphabet" sections).head?.map Located.value
  initial : [a.initial.name] = namesIn (namesUnder "initial_state" sections)
  final : a.final.idents State.name = namesUnder "final_states" sections
  rejecting : a.rejecting.idents State.name = namesUnder "rejecting_states" sections
  moves : a.moves.entries.map some = (Outline.ofSections sections).rules.map Rule.meaning?

end Pushdown
