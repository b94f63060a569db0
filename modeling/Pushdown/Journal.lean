/-
  Pushdown.Journal — what the library notes down while it works, in order.

  A computation that notes something down has a result and a journal. Put one behind
  another, they keep their journals in that order.
-/

namespace Pushdown

inductive Level where
  | debug
  | trace
  deriving DecidableEq, Repr

/-- The name of a level where records are shown. -/
def Level.title : Level → String
  | debug => "DEBUG"
  | trace => "TRACE"

structure Record where
  level : Level
  message : String
  deriving DecidableEq, Repr

/-- A result and what was noted down on the way to it. -/
structure Recorded (α : Type) where
  result : α
  journal : List Record
  deriving DecidableEq, Repr

namespace Recorded

instance : Monad Recorded where
  pure a := ⟨a, []⟩
  bind x f := ⟨(f x.result).result, x.journal ++ (f x.result).journal⟩

def note (r : Record) : Recorded Unit := ⟨(), [r]⟩

variable {α β : Type}

@[simp] theorem result_pure (a : α) : (pure a : Recorded α).result = a := rfl
@[simp] theorem journal_pure (a : α) : (pure a : Recorded α).journal = [] := rfl
@[simp] theorem journal_note (r : Record) : (note r).journal = [r] := rfl

@[simp] theorem result_bind (x : Recorded α) (f : α → Recorded β) : (x >>= f).result = (f x.result).result := rfl

@[simp] theorem journal_bind (x : Recorded α) (f : α → Recorded β) :
    (x >>= f).journal = x.journal ++ (f x.result).journal := rfl

end Recorded

end Pushdown
