/-
  Pushdown.Text.Offset — byte offsets in a text held as its characters.

  An offset that falls inside a character, or past the end, cuts nothing: the cuts
  answer `none`. At the border of two parts of a text they are exactly those parts
  (`takeBytes?_append`, `dropBytes?_append`).
-/

import Pushdown.Text.Span

namespace Pushdown.Text

/-- The length of a run of characters in UTF-8. -/
def byteLength : List Char → Nat
  | [] => 0
  | c :: rest => c.utf8Size + byteLength rest

@[simp] theorem byteLength_nil : byteLength [] = 0 := rfl

@[simp] theorem byteLength_cons (c : Char) (rest : List Char) :
    byteLength (c :: rest) = c.utf8Size + byteLength rest := rfl

@[simp] theorem byteLength_append (a b : List Char) :
    byteLength (a ++ b) = byteLength a + byteLength b := by
  induction a with
  | nil => simp
  | cons c a ih => simp [ih, Nat.add_assoc]

/-- The text from a byte offset on. -/
def dropBytes? : Nat → List Char → Option (List Char)
  | 0, text => some text
  | _ + 1, [] => none
  | n + 1, c :: rest => if c.utf8Size ≤ n + 1 then dropBytes? (n + 1 - c.utf8Size) rest else none

/-- The text before a byte offset. -/
def takeBytes? : Nat → List Char → Option (List Char)
  | 0, _ => some []
  | _ + 1, [] => none
  | n + 1, c :: rest =>
    if c.utf8Size ≤ n + 1 then (takeBytes? (n + 1 - c.utf8Size) rest).map (c :: ·) else none

/-- The text a span covers; none when it is reversed or cuts a character. -/
def slice? (s : Span) (text : List Char) : Option (List Char) :=
  if s.start ≤ s.stop then (dropBytes? s.start text).bind (takeBytes? (s.stop - s.start)) else none

theorem dropBytes?_append (a b : List Char) : dropBytes? (byteLength a) (a ++ b) = some b := by
  induction a with
  | nil => cases b <;> rfl
  | cons c a ih =>
    have hc := c.utf8Size_pos
    obtain ⟨n, hn⟩ : ∃ n, byteLength (c :: a) = n + 1 := ⟨c.utf8Size + byteLength a - 1, by simp; omega⟩
    have hle : c.utf8Size ≤ n + 1 := by simp at hn; omega
    have hrest : n + 1 - c.utf8Size = byteLength a := by simp at hn; omega
    rw [hn, List.cons_append, dropBytes?, if_pos hle, hrest, ih]

theorem takeBytes?_append (a b : List Char) : takeBytes? (byteLength a) (a ++ b) = some a := by
  induction a with
  | nil => cases b <;> rfl
  | cons c a ih =>
    have hc := c.utf8Size_pos
    obtain ⟨n, hn⟩ : ∃ n, byteLength (c :: a) = n + 1 := ⟨c.utf8Size + byteLength a - 1, by simp; omega⟩
    have hle : c.utf8Size ≤ n + 1 := by simp at hn; omega
    have hrest : n + 1 - c.utf8Size = byteLength a := by simp at hn; omega
    rw [hn, List.cons_append, takeBytes?, if_pos hle, hrest, ih, Option.map_some]

/-- The 1-based number of the line that holds a byte offset; an offset that cuts
    nothing counts as the end of the text. -/
def lineOf (text : List Char) (offset : Nat) : Nat :=
  ((takeBytes? offset text).getD text).count '\n' + 1

end Pushdown.Text
