/-
  Pushdown.Text.Span — places in a text.

  A span is a half open range of byte offsets into the UTF-8 form of a text. Nothing
  forces its ends to be ordered or to lie in the text: spans come from callers too.
-/

namespace Pushdown

structure Span where
  start : Nat
  stop : Nat
  deriving DecidableEq, Repr

namespace Span

/-- The least span that holds both. -/
def join (a b : Span) : Span := ⟨min a.start b.start, max a.stop b.stop⟩

/-- The empty span at an offset. -/
def point (offset : Nat) : Span := ⟨offset, offset⟩

/-- Whether the byte at an offset belongs to the span. -/
def covers (s : Span) (offset : Nat) : Bool := s.start ≤ offset && offset < s.stop

end Span

/-- A value and the place it was read from. -/
structure Located (α : Type) where
  value : α
  span : Span
  deriving DecidableEq, Repr

/-- A name as it stands in a definition. -/
abbrev Ident := Located String

end Pushdown
