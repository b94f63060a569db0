/-
  Pushdown.Vocabulary — what a machine is made of: its states, the letters it reads and the
  symbols on its stack. Two names are reserved: `INPUT_END` is the letter read once the
  input is used up, `STACK_END` the symbol seen when nothing is on the stack.
-/

namespace Pushdown

structure State where
  name : String
  deriving DecidableEq, Ord, Repr

/-- A symbol that can lie on the stack, never the bottom itself. -/
structure Symbol where
  name : String
  deriving DecidableEq, Ord, Repr

/-- The name of the end of the input. -/
def inputEnd : String := "INPUT_END"

/-- The name of the bottom of the stack. -/
def stackEnd : String := "STACK_END"

def isReserved (name : String) : Bool := name == stackEnd || name == inputEnd

/-- What a step reads from the input. -/
inductive Letter where
  | inputEnd
  | char (c : Char)
  deriving DecidableEq, Ord, Repr

namespace Letter

/-- A letter is written as its one character or as the name of the end of the input. -/
def ofText? (text : String) : Option Letter :=
  if text = Pushdown.inputEnd then some .inputEnd
  else match text.toList with
    | [c] => some (.char c)
    | _ => none

def text : Letter → String
  | .inputEnd => Pushdown.inputEnd
  | .char c => c.toString

end Letter

/-- What a step sees on top of the stack, or puts there. -/
inductive StackSymbol where
  | stackEnd
  | symbol (s : Symbol)
  deriving DecidableEq, Ord, Repr

namespace StackSymbol

def ofText (text : String) : StackSymbol :=
  if text = Pushdown.stackEnd then .stackEnd else .symbol ⟨text⟩

def text : StackSymbol → String
  | .stackEnd => Pushdown.stackEnd
  | .symbol s => s.name

@[simp] theorem text_ofText (text : String) : (ofText text).text = text := by
  unfold ofText
  split
  · next h => exact h.symm
  · rfl

end StackSymbol

theorem Letter.text_of_ofText? {text : String} {l : Letter} (h : Letter.ofText? text = some l) :
    l.text = text := by
  unfold Letter.ofText? at h
  split at h
  · next e => cases h; exact e.symm
  · split at h
    · next c hc =>
      cases h
      rw [← String.ofList_toList (s := text), hc]
      rfl
    · exact absurd h (by simp)

end Pushdown
