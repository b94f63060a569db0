/-
  Pushdown.Proofs.Line.Local — a definition is read line by line.

  `lineLocal_append`: whatever stands on both sides of a line feed, the lexemes of the whole
  are those before it, a line end, and those after it, which know of the text before only
  how long it is. So no lexeme crosses a line feed, be it a comment or an arrow cut in two,
  and the lines are those of both sides, with the indents that they have there.
-/

import Pushdown.Proofs.Line.Place
import Pushdown.Proofs.Line.Relocation

namespace Pushdown

open Text

/-- All offsets lie further on. -/
def Relocation.forward (n : Nat) : Relocation := ⟨fun offset => n + offset, fun _ _ h => Nat.add_le_add_left h n⟩

/-- The line end that follows a text. -/
def lineEndAfter (text : List Char) : Scanned :=
  ⟨.token .lineEnd, ⟨byteLength text, byteLength text + 1⟩, columnAfter 0 text⟩

/-- What is read of two texts with a line feed between them is read of each on its own. -/
structure LineLocal (a b : String) : Prop where
  /-- The characters that no token may hold are among the lexemes. -/
  lexemes : scan (a ++ "\n" ++ b) = scan a ++ lineEndAfter a.toList ::
    (scan b).map (Scanned.move (.forward (byteLength a.toList + 1)))
  /-- Nothing but the line end itself covers the line feed. -/
  apart : ∀ s ∈ scan (a ++ "\n" ++ b),
    s.span.stop ≤ byteLength a.toList ∨ s = lineEndAfter a.toList ∨ byteLength a.toList + 1 ≤ s.span.start
  /-- No line is indented otherwise. -/
  lines : linesOf (scan (a ++ "\n" ++ b)) = linesOf (scan a) ++
    (linesOf (scan b)).map (Line.move (.forward (byteLength a.toList + 1)) id)

section Append

variable (a b : String)

theorem toList_append_lineFeed : (a ++ "\n" ++ b).toList = a.toList ++ '\n' :: b.toList := by
  rw [String.toList_append, String.toList_append, List.append_assoc]
  rfl

/-- A text at another offset has its lexemes there. -/
theorem scanFrom_forward (n : Nat) (text : List Char) :
    scanFrom ⟨n, 0, true⟩ text = (scanFrom .origin text).map (Scanned.move (.forward n)) := by
  refine @scanFrom_move (.forward n) .origin n text ?_
  intro k _
  simp only [Relocation.forward, Cursor.origin, Nat.zero_add]

theorem scan_append_lineFeed :
    scan (a ++ "\n" ++ b) = scan a ++ lineEndAfter a.toList ::
      (scan b).map (Scanned.move (.forward (byteLength a.toList + 1))) := by
  have hsplit := scanFrom_append_lineEnd .origin a.toList b.toList
  rw [show Cursor.origin.offset = 0 from rfl, Nat.zero_add, scanFrom_forward (byteLength a.toList + 1)] at hsplit
  rw [scan, toList_append_lineFeed, hsplit]
  rfl

theorem linesOf_append_lineFeed :
    linesOf (scan (a ++ "\n" ++ b)) = linesOf (scan a) ++
      (linesOf (scan b)).map (Line.move (.forward (byteLength a.toList + 1)) id) := by
  have hsplit := linesOf_append 0 a.toList b.toList
  rw [Nat.zero_add, scanFrom_forward (byteLength a.toList + 1), linesOf_move] at hsplit
  rw [scan, toList_append_lineFeed]
  exact hsplit

end Append

theorem lineLocal_append (a b : String) : LineLocal a b where
  lexemes := scan_append_lineFeed a b
  apart := by
    intro s hs
    rw [scan_append_lineFeed, List.mem_append, List.mem_cons] at hs
    rcases hs with hs | hs | hs
    · obtain ⟨part, -, hcuts, -⟩ := standsAt_of_mem_scanFrom s hs
      have hstop := hcuts.bounds.2.2
      simp only [Cursor.origin, Nat.zero_add] at hstop
      exact .inl hstop
    · exact .inr (.inl hs)
    · obtain ⟨moved, -, rfl⟩ := List.mem_map.mp hs
      exact .inr (.inr (Nat.le_add_right _ _))
  lines := linesOf_append_lineFeed a b

/-- An arrow that a line feed cuts in two is two words. -/
example : (scan "-\n>").map Scanned.lexeme = [.token (.word "-"), .token .lineEnd, .token (.word ">")] := by
  decide +kernel

end Pushdown
