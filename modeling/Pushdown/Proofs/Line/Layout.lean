/-
  Pushdown.Proofs.Line.Layout — what the layout of a text does not change.

  A blank at the end of a line, be it the carriage return of a line end, separates nothing:
  it is either skipped or goes into a comment (`scanFrom_append_blank`). So a text with a
  carriage return before every line feed has the same lines (`lines_returned`). A line that
  is blank or a comment says nothing (`lines_of_saysNothing`).
-/

import Pushdown.Proofs.Line.Relocation
import Pushdown.Proofs.Text.Offset

namespace Pushdown

open Text

/-- A line that is blank, or a comment after blanks. -/
def SaysNothing (line : List Char) : Prop := '\n' ∉ line ∧ ∀ c ∈ (line.dropWhile isBlank).head?, c = '#'

instance (line : List Char) : Decidable (SaysNothing line) := inferInstanceAs (Decidable (_ ∧ _))

/-! ## Comments -/

def Scanned.isComment (s : Scanned) : Bool :=
  match s.lexeme with
  | .token (.comment _) => true
  | _ => false

def withoutComments (lexemes : List Scanned) : List Scanned := lexemes.filter fun s => !s.isComment

theorem filterMap_withoutComments {α : Type} {f : Scanned → Option α} (h : ∀ s, s.isComment = true → f s = none)
    (lexemes : List Scanned) : (withoutComments lexemes).filterMap f = lexemes.filterMap f := by
  rw [withoutComments, List.filterMap_filter]
  congr
  funext s
  cases hs : s.isComment with
  | true => rw [h s hs]; rfl
  | false => rfl

theorem kept?_of_isComment {s : Scanned} (h : s.isComment = true) : s.kept? = none := by
  unfold Scanned.isComment at h
  split at h
  · next text ht => rw [Scanned.kept?, ht]
  · cases h

theorem ofScanned?_withoutComments (lexemes : List Scanned) :
    Line.ofScanned? (withoutComments lexemes) = Line.ofScanned? lexemes := by
  rw [Line.ofScanned?, filterMap_withoutComments (fun s => kept?_of_isComment), Line.ofScanned?]

theorem invalidChars_withoutComments (lexemes : List Scanned) :
    invalidChars (withoutComments lexemes) = invalidChars lexemes := by
  refine filterMap_withoutComments (fun s hs => ?_) lexemes
  unfold Scanned.isComment at hs
  split at hs
  · next text ht => rw [ht]
  · cases hs

theorem scanFrom_comment {p : Cursor} (hs : p.lineStart = true) {rest : List Char} (h : '\n' ∉ rest) :
    withoutComments (scanFrom p ('#' :: rest)) = [] := by
  rw [scanFrom, if_neg (by decide), if_neg (by decide)]
  simp only [hs, firstLexeme_comment, splitLine_of_notMem h]
  rw [scanFrom]
  rfl

/-- Comments apart, a line has the lexemes that it has with a blank at its end. -/
theorem scanFrom_append_blank {p : Cursor} {line : List Char} (h : '\n' ∉ line) {b : Char} (hb : isBlank b = true)
    (hne : b ≠ '\n') : withoutComments (scanFrom p (line ++ [b])) = withoutComments (scanFrom p line) := by
  fun_induction scanFrom p line with
  | case1 p =>
    rw [List.nil_append, scanFrom, if_neg hne, if_pos hb]
    rw [scanFrom]
  | case2 p rest ih => simp at h
  | case3 p c rest hc hblank ih =>
    rw [List.cons_append, scanFrom, if_neg hc, if_pos hblank]
    exact ih fun hm => h (List.mem_cons_of_mem _ hm)
  | case4 p c rest hc hblank first ih =>
    rw [List.cons_append, scanFrom, if_neg hc, if_neg hblank]
    by_cases hcomment : c = '#' ∧ p.lineStart = true
    · -- the rest of the line is a comment, with the blank and without
      obtain ⟨rfl, hs⟩ := hcomment
      have hline : '\n' ∉ rest ++ [b] := by simpa [Ne.symm hne] using h
      have hshort := @scanFrom_comment p hs rest (by simpa using h)
      have hlong := @scanFrom_comment p hs _ hline
      rw [scanFrom, if_neg hc, if_neg hblank] at hshort hlong
      exact hlong.trans hshort.symm
    · have hrest : '\n' ∉ first.2.2 := by
        intro hm
        exact h (firstLexeme_append p.lineStart c rest ▸ List.mem_append_right _ hm)
      have ih := ih hrest
      rw [firstLexeme_append_blank hb hcomment]
      unfold withoutComments at ih ⊢
      rw [List.filter_cons, List.filter_cons, ih]

/-! ## Lines -/

section Lines

variable {offset : Nat} {line : List Char}

theorem lines_congr {line' : List Char} (h : '\n' ∉ line) (h' : '\n' ∉ line')
    (hw : withoutComments (scanFrom ⟨offset, 0, true⟩ line) = withoutComments (scanFrom ⟨offset, 0, true⟩ line')) :
    invalidChars (scanFrom ⟨offset, 0, true⟩ line) = invalidChars (scanFrom ⟨offset, 0, true⟩ line') ∧
      linesOf (scanFrom ⟨offset, 0, true⟩ line) = linesOf (scanFrom ⟨offset, 0, true⟩ line') := by
  refine ⟨?_, ?_⟩
  · rw [← invalidChars_withoutComments, hw, invalidChars_withoutComments]
  · rw [linesOf_of_notMem h, linesOf_of_notMem h', ← ofScanned?_withoutComments, hw, ofScanned?_withoutComments]

theorem lines_of_saysNothing (h : SaysNothing line) :
    invalidChars (scanFrom ⟨offset, 0, true⟩ line) = [] ∧ linesOf (scanFrom ⟨offset, 0, true⟩ line) = [] := by
  have hnothing : ∀ p : Cursor, p.lineStart = true → withoutComments (scanFrom p line) = [] := by
    obtain ⟨hno, hhead⟩ := h
    induction line with
    | nil =>
      intro p _
      rw [scanFrom]
      rfl
    | cons c rest ih =>
      intro p hs
      have hrest : '\n' ∉ rest := fun hm => hno (List.mem_cons_of_mem _ hm)
      by_cases hb : isBlank c = true
      · rw [List.dropWhile_cons_of_pos hb] at hhead
        simp only [List.mem_cons, not_or] at hno
        rw [scanFrom, if_neg (Ne.symm hno.1), if_pos hb]
        exact ih hrest hhead (p.skip c) hs
      · rw [List.dropWhile_cons_of_neg hb] at hhead
        rw [hhead c rfl]
        exact scanFrom_comment hs hrest
  have hempty : withoutComments (scanFrom ⟨offset, 0, true⟩ line) = withoutComments (scanFrom ⟨offset, 0, true⟩ []) := by
    rw [hnothing _ rfl, scanFrom]
    rfl
  have hlines := lines_congr h.1 List.not_mem_nil hempty
  rw [scanFrom] at hlines
  exact hlines

end Lines

/-! ## Carriage returns -/

/-- With a carriage return before every line feed a text has the same lines, and the same
    characters belong to no token. -/
theorem lines_returned {m : Relocation} {offset start : Nat} {text : List Char}
    (h : ∀ k ≤ byteLength text, m.offset (offset + k) = start + returnedOffset text k) :
    invalidChars (scanFrom ⟨start, 0, true⟩ (returned text)) =
        (invalidChars (scanFrom ⟨offset, 0, true⟩ text)).map (Located.move m) ∧
      linesOf (scanFrom ⟨start, 0, true⟩ (returned text)) =
        (linesOf (scanFrom ⟨offset, 0, true⟩ text)).map (Line.move m id) := by
  induction text using Text.line_induction generalizing offset start with
  | last line hline =>
    have hmove : ∀ k ≤ byteLength line, m.offset (offset + k) = start + k := by
      intro k hk
      have hsame := returnedOffset_of_notMem hline [] hk
      rw [List.append_nil] at hsame
      rw [h k hk, hsame]
    have hscan := @scanFrom_move m ⟨offset, 0, true⟩ start line hmove
    rw [returned_of_notMem hline, hscan, invalidChars_move, linesOf_move]
    exact ⟨rfl, rfl⟩
  | more line after hline ih =>
    have hsize : '\n'.utf8Size = 1 := by decide
    rw [byteLength_append, byteLength_cons, hsize] at h
    have hmove : ∀ k ≤ byteLength line, m.offset (offset + k) = start + k := by
      intro k hk
      rw [h k (by omega), returnedOffset_of_notMem hline _ hk]
    have hafter : ∀ k ≤ byteLength after, m.offset (offset + byteLength line + 1 + k) =
        start + byteLength (line ++ ['\r']) + 1 + returnedOffset after k := by
      intro k hk
      have hreturn : byteLength (line ++ ['\r']) = byteLength line + 1 := by
        rw [byteLength_append]
        rfl
      have hk' := h (byteLength line + 1 + k) (by omega)
      rw [returnedOffset_append_lineFeed hline] at hk'
      rw [hreturn, Nat.add_assoc offset, Nat.add_assoc offset, hk']
      omega
    have hscan := @scanFrom_move m ⟨offset, 0, true⟩ start line hmove
    have hblank := @lines_congr start (line ++ ['\r']) line (by simpa using hline) hline
      (scanFrom_append_blank hline (by decide) (by decide))
    have hsplit : returned (line ++ '\n' :: after) = (line ++ ['\r']) ++ '\n' :: returned after := by
      rw [returned_append_lineFeed hline, List.append_assoc]
      rfl
    obtain ⟨hinvalid, hlines⟩ := ih hafter
    rw [hsplit, invalidChars_append_lineEnd, linesOf_append, invalidChars_append_lineEnd, linesOf_append, hblank.1,
      hblank.2, hscan, invalidChars_move, linesOf_move, hinvalid, hlines, List.map_append, List.map_append]
    exact ⟨rfl, rfl⟩

end Pushdown
