/-
  Pushdown.Stack — stacks over a bottom that is never stored.

  The bottom is seen when nothing lies on it; it cannot be taken away, and putting it
  where it is changes nothing.
-/

import Pushdown.Vocabulary

namespace Pushdown

structure Stack where
  /-- The symbols on the bottom, the top one first. -/
  fromTop : List Symbol
  deriving DecidableEq, Repr

namespace Stack

def empty : Stack := ⟨[]⟩

/-- What a step sees. -/
def top (s : Stack) : StackSymbol :=
  match s.fromTop with
  | [] => .stackEnd
  | symbol :: _ => .symbol symbol

/-- The symbols on the bottom, the lowest one first. -/
def symbols (s : Stack) : List Symbol := s.fromTop.reverse

def size (s : Stack) : Nat := s.fromTop.length

def isEmpty (s : Stack) : Bool := s.fromTop.isEmpty

def push (s : Stack) : StackSymbol → Stack
  | .stackEnd => s
  | .symbol symbol => ⟨symbol :: s.fromTop⟩

/-- Takes the top away and puts symbols in its place, the first one lowest. -/
def replaceTop (s : Stack) (symbols : List StackSymbol) : Stack :=
  symbols.foldl push ⟨s.fromTop.tail⟩

def text (s : Stack) : String :=
  "[" ++ ", ".intercalate (stackEnd :: s.symbols.map Symbol.name) ++ "]"

/-! ## The symbols after an operation -/

@[simp] theorem symbols_empty : empty.symbols = [] := rfl

/-- The stored symbols of a replacement: all but the bottom. -/
def stored : List StackSymbol → List Symbol :=
  List.filterMap fun
    | .stackEnd => none
    | .symbol s => some s

theorem symbols_foldl_push (s : Stack) (added : List StackSymbol) :
    (added.foldl push s).symbols = s.symbols ++ stored added := by
  induction added generalizing s with
  | nil => simp [stored]
  | cons a rest ih =>
    rw [List.foldl_cons, ih]
    cases a with
    | stackEnd => rfl
    | symbol x => simp [push, symbols, stored]

theorem symbols_replaceTop (s : Stack) (added : List StackSymbol) :
    (s.replaceTop added).symbols = s.symbols.dropLast ++ stored added := by
  rw [replaceTop, symbols_foldl_push]
  simp [symbols]

end Stack

end Pushdown
