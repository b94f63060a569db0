/-
  Pushdown.Proofs.Line.Relocation — a text at another offset.

  The lexemes of a text do not depend on the offset that it is scanned from, but for their
  places, which move with it (`scanFrom_move`); nor do its lines. The lines of a text that
  goes on after a line feed are those of the part before it and those of the part after it
  (`linesOf_append`), and so are the characters that belong to no token.
-/

import Pushdown.Proofs.Line
import Pushdown.Proofs.Relocation

namespace Pushdown

open Text

variable {m : Relocation}

def Scanned.move (m : Relocation) (s : Scanned) : Scanned := { s with span := s.span.move m }

/-! ## Lexemes -/

theorem scanned_move {p : Cursor} {start : Nat} {text : List Char} {lexeme : Lexeme}
    (h : ∀ k ≤ byteLength text, m.offset (p.offset + k) = start + k) :
    { p with offset := start : Cursor }.scanned text lexeme = (p.scanned text lexeme).move m := by
  have hstart := h 0 (Nat.zero_le _)
  have hstop := h _ (Nat.le_refl _)
  simp only [Nat.add_zero] at hstart
  simp only [Cursor.scanned, Scanned.move, Span.move, hstart, hstop]

/-- A text that is scanned from another offset has the same lexemes there. -/
theorem scanFrom_move {p : Cursor} {start : Nat} {text : List Char}
    (h : ∀ k ≤ byteLength text, m.offset (p.offset + k) = start + k) :
    scanFrom { p with offset := start } text = (scanFrom p text).map (Scanned.move m) := by
  fun_induction scanFrom p text generalizing start with
  | case1 p => rw [scanFrom]; rfl
  | case2 p rest ih =>
    have hsize : '\n'.utf8Size = 1 := by decide
    simp only [byteLength_cons, hsize] at h
    have hrest : ∀ k ≤ byteLength rest, m.offset (p.newLine.offset + k) = start + 1 + k := by
      intro k hk
      have := h (1 + k) (by omega)
      rwa [← Nat.add_assoc, ← Nat.add_assoc] at this
    rw [scanFrom, if_pos rfl, List.map_cons, ← ih hrest, ← scanned_move fun k hk => h k (by simp at hk; omega)]
    rfl
  | case3 p c rest hc hb ih =>
    simp only [byteLength_cons] at h
    have hrest : ∀ k ≤ byteLength rest, m.offset ((p.skip c).offset + k) = start + c.utf8Size + k := by
      intro k hk
      have := h (c.utf8Size + k) (by omega)
      rwa [← Nat.add_assoc, ← Nat.add_assoc] at this
    rw [scanFrom, if_neg hc, if_pos hb, ← ih hrest]
    rfl
  | case4 p c rest hc hb first =>
    rename_i ih
    have hcover : first.2.1 ++ first.2.2 = c :: rest := firstLexeme_append p.lineStart c rest
    rw [← hcover, byteLength_append] at h
    have hrest : ∀ k ≤ byteLength first.2.2,
        m.offset ((p.pass first.2.1).offset + k) = start + byteLength first.2.1 + k := by
      intro k hk
      have := h (byteLength first.2.1 + k) (by omega)
      rwa [← Nat.add_assoc, ← Nat.add_assoc] at this
    rw [scanFrom, if_neg hc, if_neg hb, List.map_cons, ← ih hrest, ← scanned_move fun k hk => h k (by omega)]
    rfl

/-! ## Lines and rejected characters -/

theorem isLineEnd_move (s : Scanned) : (s.move m).isLineEnd = s.isLineEnd := rfl

theorem kept?_move (s : Scanned) :
    (s.move m).kept? = s.kept?.map fun kept => (kept.1, kept.2.move m) := by
  obtain ⟨lexeme, place, column⟩ := s
  cases lexeme with
  | invalid c => rfl
  | token t => cases t <;> rfl

theorem invalidChars_move (lexemes : List Scanned) :
    invalidChars (lexemes.map (Scanned.move m)) = (invalidChars lexemes).map (Located.move m) := by
  rw [invalidChars, List.filterMap_map, invalidChars, List.map_filterMap]
  congr
  funext s
  obtain ⟨lexeme, place, column⟩ := s
  cases lexeme <;> rfl

theorem ofScanned?_move (lexemes : List Scanned) :
    Line.ofScanned? (lexemes.map (Scanned.move m)) = (Line.ofScanned? lexemes).map (Line.move m id) := by
  have hkept : (lexemes.map (Scanned.move m)).filterMap Scanned.kept? =
      (lexemes.filterMap Scanned.kept?).map fun kept => (kept.1, kept.2.move m) := by
    rw [List.filterMap_map, List.map_filterMap]
    exact congrArg (List.filterMap · lexemes) (funext kept?_move)
  rw [Line.ofScanned?, hkept, Line.ofScanned?]
  cases lexemes.filterMap Scanned.kept? with
  | nil => rfl
  | cons first rest => simp [Line.move, Function.comp_def]

theorem splitLines_move (lexemes : List Scanned) :
    splitLines (lexemes.map (Scanned.move m)) = (splitLines lexemes).map (List.map (Scanned.move m)) := by
  induction lexemes with
  | nil => rfl
  | cons s rest ih =>
    rw [List.map_cons, splitLines, splitLines, isLineEnd_move, ih]
    split
    · rfl
    · cases splitLines rest <;> rfl

theorem linesOf_move (lexemes : List Scanned) :
    linesOf (lexemes.map (Scanned.move m)) = (linesOf lexemes).map (Line.move m id) := by
  rw [linesOf, splitLines_move, List.filterMap_map, linesOf, List.map_filterMap]
  exact congrArg (List.filterMap · _) (funext ofScanned?_move)

/-! ## A text with a line feed in it -/

theorem linesOf_append (offset : Nat) (before after : List Char) :
    linesOf (scanFrom ⟨offset, 0, true⟩ (before ++ '\n' :: after)) =
      linesOf (scanFrom ⟨offset, 0, true⟩ before) ++
        linesOf (scanFrom ⟨offset + byteLength before + 1, 0, true⟩ after) := by
  induction before using Text.line_induction generalizing offset with
  | last line h => rw [linesOf_append_lineEnd h, linesOf_of_notMem h]
  | more line rest h ih =>
    have hsize : '\n'.utf8Size = 1 := by decide
    rw [List.append_assoc, List.cons_append, linesOf_append_lineEnd h, linesOf_append_lineEnd h, ih, List.append_assoc]
    simp only [byteLength_append, byteLength_cons, hsize, Nat.add_assoc]

end Pushdown
