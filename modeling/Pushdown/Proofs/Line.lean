/-
  Pushdown.Proofs.Line — the lines of a definition are the lines of its text.

  The lines of a scan are cut at the line ends in it, and a line is indented by the column
  of its first token. `linesOf_scan`: where no character is invalid these are the lines of
  the text itself, each read on its own (`Line.ofText?`): those with a token that is no
  comment, indented by the blanks they begin with.
-/

import Pushdown.Line
import Pushdown.Proofs.Token.Local
import Pushdown.Text.Lines

namespace Pushdown

open Text

/-! ## The lines of a text -/

/-- A text is a last line, or a line, its end and a text. -/
theorem Text.line_induction {P : List Char → Prop} (last : ∀ line, '\n' ∉ line → P line)
    (more : ∀ line after, '\n' ∉ line → P after → P (line ++ '\n' :: after)) (text : List Char) : P text := by
  induction hn : text.length using Nat.strongRecOn generalizing text with
  | ind n ih =>
    by_cases h : '\n' ∈ text
    · obtain ⟨line, after, rfl, hno⟩ := List.eq_append_cons_of_mem h
      refine more line after hno (ih after.length ?_ after rfl)
      simp only [List.length_append, List.length_cons] at hn
      omega
    · exact last text h

theorem Text.terminatedLines_of_notMem {line : List Char} (h : '\n' ∉ line) (hne : line ≠ []) :
    terminatedLines line = [line] := by
  induction line with
  | nil => exact absurd rfl hne
  | cons c rest ih =>
    simp only [List.mem_cons, not_or] at h
    rw [terminatedLines, if_neg (Ne.symm h.1)]
    cases rest with
    | nil => rfl
    | cons d rest => rw [ih h.2 (List.cons_ne_nil _ _)]

theorem Text.terminatedLines_append {line : List Char} (h : '\n' ∉ line) (after : List Char) :
    terminatedLines (line ++ '\n' :: after) = (line ++ ['\n']) :: terminatedLines after := by
  induction line with
  | nil => rw [List.nil_append, terminatedLines, if_pos rfl]; rfl
  | cons c rest ih =>
    simp only [List.mem_cons, not_or] at h
    rw [List.cons_append, terminatedLines, if_neg (Ne.symm h.1), ih h.2]
    rfl

/-- The tokens on a line that begins at a byte offset, without comments. -/
def tokensOn (offset : Nat) (text : List Char) : List (Located Token) :=
  ((scanFrom ⟨offset, 0, true⟩ text).filterMap Scanned.kept?).map Prod.snd

/-- The line that a text at a byte offset says, if it has a token. -/
def Line.ofText? (offset : Nat) (text : List Char) : Option Line :=
  match tokensOn offset text with
  | [] => none
  | first :: rest => some ⟨(text.takeWhile isBlank).length, first :: rest, List.cons_ne_nil _ _⟩

/-- The lines that consecutive texts say, the first of them at a byte offset. -/
def layout (offset : Nat) : List (List Char) → List Line
  | [] => []
  | text :: rest => (Line.ofText? offset text).toList ++ layout (offset + byteLength text) rest

/-! ## Cutting a scan at its line ends -/

theorem splitLines_of_noLineEnd {line : List Scanned} (h : ∀ s ∈ line, s.isLineEnd = false) :
    splitLines line = [line] := by
  induction line with
  | nil => rfl
  | cons s rest ih =>
    rw [splitLines, if_neg (by simp [h s List.mem_cons_self]),
      ih fun t ht => h t (List.mem_cons_of_mem _ ht)]

theorem splitLines_append_lineEnd {line : List Scanned} (h : ∀ s ∈ line, s.isLineEnd = false) {e : Scanned}
    (he : e.isLineEnd = true) (after : List Scanned) :
    splitLines (line ++ e :: after) = line :: splitLines after := by
  induction line with
  | nil => rw [List.nil_append, splitLines, if_pos he]
  | cons s rest ih =>
    rw [List.cons_append, splitLines, if_neg (by simp [h s List.mem_cons_self]),
      ih fun t ht => h t (List.mem_cons_of_mem _ ht)]

theorem kept_splitLines (lexemes : List Scanned) :
    (splitLines lexemes).flatMap (List.filterMap Scanned.kept?) = lexemes.filterMap Scanned.kept? := by
  induction lexemes with
  | nil => rfl
  | cons s rest ih =>
    rw [splitLines, List.filterMap_cons]
    by_cases hs : s.isLineEnd = true
    · have hkept : s.kept? = none := by simp [Scanned.kept?, beq_iff_eq.mp hs]
      rw [if_pos hs, hkept, List.flatMap_cons, ih]
      rfl
    · rw [if_neg hs, ← ih]
      cases splitLines rest with
      | nil => cases hk : s.kept? <;> simp [hk]
      | cons line lines => cases hk : s.kept? <;> simp [hk]

/-- The lines of a scan hold its tokens, in their order. -/
theorem tokens_linesOf (lexemes : List Scanned) :
    (linesOf lexemes).flatMap Line.tokens = (lexemes.filterMap Scanned.kept?).map Prod.snd := by
  rw [← kept_splitLines, linesOf]
  induction splitLines lexemes with
  | nil => rfl
  | cons line lines ih =>
    rw [List.flatMap_cons, List.map_append, ← ih, List.filterMap_cons, Line.ofScanned?]
    cases line.filterMap Scanned.kept? <;> rfl

/-- The lexemes of a line are no line ends. -/
theorem noLineEnd_of_notMem {p : Cursor} {line : List Char} (h : '\n' ∉ line) :
    ∀ s ∈ scanFrom p line, s.isLineEnd = false := by
  fun_induction scanFrom p line with
  | case1 p => simp
  | case2 p rest ih => simp at h
  | case3 p c rest hc hb ih =>
    exact ih fun hm => h (List.mem_cons_of_mem _ hm)
  | case4 p c rest hc hb first ih =>
    have hrest : '\n' ∉ first.2.2 := by
      intro hm
      exact h ((firstLexeme_append p.lineStart c rest) ▸ List.mem_append_right _ hm)
    intro s hs
    rcases List.mem_cons.mp hs with rfl | hs
    · simpa [Scanned.isLineEnd, Cursor.scanned] using firstLexeme_ne_lineEnd p.lineStart c rest
    · exact ih hrest s hs

/-- The lines of a text with a line feed in it. -/
theorem linesOf_append_lineEnd {offset : Nat} {line : List Char} (h : '\n' ∉ line) (after : List Char) :
    linesOf (scanFrom ⟨offset, 0, true⟩ (line ++ '\n' :: after)) =
      (Line.ofScanned? (scanFrom ⟨offset, 0, true⟩ line)).toList ++
        linesOf (scanFrom ⟨offset + byteLength line + 1, 0, true⟩ after) := by
  rw [scanFrom_append_lineEnd, linesOf, splitLines_append_lineEnd (noLineEnd_of_notMem h) rfl,
    List.filterMap_cons]
  cases Line.ofScanned? (scanFrom ⟨offset, 0, true⟩ line) <;> rfl

theorem linesOf_of_notMem {offset : Nat} {line : List Char} (h : '\n' ∉ line) :
    linesOf (scanFrom ⟨offset, 0, true⟩ line) = (Line.ofScanned? (scanFrom ⟨offset, 0, true⟩ line)).toList := by
  rw [linesOf, splitLines_of_noLineEnd (noLineEnd_of_notMem h), List.filterMap_cons, List.filterMap_nil]
  cases Line.ofScanned? (scanFrom ⟨offset, 0, true⟩ line) <;> rfl

theorem invalidChars_append (a b : List Scanned) : invalidChars (a ++ b) = invalidChars a ++ invalidChars b :=
  List.filterMap_append

theorem invalidChars_append_lineEnd (offset : Nat) (before after : List Char) :
    invalidChars (scanFrom ⟨offset, 0, true⟩ (before ++ '\n' :: after)) =
      invalidChars (scanFrom ⟨offset, 0, true⟩ before) ++
        invalidChars (scanFrom ⟨offset + byteLength before + 1, 0, true⟩ after) := by
  rw [scanFrom_append_lineEnd, invalidChars_append]
  rfl

/-! ## The indent of a line -/

/-- Where no character is invalid, the first token on a line that is no comment stands
    after the blanks that the line begins with. -/
theorem column_of_first {p : Cursor} {line : List Char} (hs : p.lineStart = true) (h : '\n' ∉ line)
    (hv : invalidChars (scanFrom p line) = []) {first : Nat × Located Token} {rest : List (Nat × Located Token)}
    (hk : (scanFrom p line).filterMap Scanned.kept? = first :: rest) :
    first.1 = p.column + (line.takeWhile isBlank).length := by
  induction line generalizing p with
  | nil => rw [scanFrom] at hk; simp at hk
  | cons c text ih =>
    have hc : c ≠ '\n' := fun e => h (e ▸ List.mem_cons_self)
    have htext : '\n' ∉ text := fun hm => h (List.mem_cons_of_mem _ hm)
    rw [scanFrom, if_neg hc] at hk hv
    by_cases hb : isBlank c = true
    · rw [if_pos hb] at hk hv
      have := ih (p := p.skip c) hs htext hv hk
      rw [this, List.takeWhile_cons_of_pos hb]
      simp only [Cursor.skip, List.length_cons]
      omega
    · rw [if_neg hb] at hk hv
      rw [List.takeWhile_cons_of_neg hb, List.length_nil, Nat.add_zero]
      simp only at hk hv
      have hend := firstLexeme_ne_lineEnd p.lineStart c text
      have hcomment := fun t ht => @firstLexeme_of_comment p.lineStart c text t ht htext
      generalize firstLexeme p.lineStart c text = lexeme at hk hv hend hcomment
      obtain ⟨kind, covered, after⟩ := lexeme
      cases kind with
      | invalid d => simp [invalidChars, Cursor.scanned] at hv
      | token t =>
        cases t with
        | comment note =>
          -- nothing is left of the line to hold a token
          obtain rfl : after = [] := hcomment note rfl
          simp [scanFrom, Cursor.scanned, Scanned.kept?, List.filterMap_cons] at hk
        | lineEnd => exact absurd rfl hend
        | _ =>
          simp only [Cursor.scanned, Scanned.kept?, List.filterMap_cons, List.cons.injEq] at hk
          rw [← hk.1]

theorem ofScanned?_eq_ofText? {offset : Nat} {line : List Char} (h : '\n' ∉ line)
    (hv : invalidChars (scanFrom ⟨offset, 0, true⟩ line) = []) :
    Line.ofScanned? (scanFrom ⟨offset, 0, true⟩ line) = Line.ofText? offset line := by
  have hcol := fun first rest => @column_of_first ⟨offset, 0, true⟩ line rfl h hv first rest
  unfold Line.ofScanned? Line.ofText? tokensOn
  cases hk : (scanFrom ⟨offset, 0, true⟩ line).filterMap Scanned.kept? with
  | nil => rfl
  | cons first rest => simp [hcol first rest hk]

/-! ## The lines of a definition -/

theorem scanFrom_of_blank {p : Cursor} {line : List Char} (h : '\n' ∉ line)
    (hb : ∀ c ∈ line, isBlank c = true) : scanFrom p line = [] := by
  induction line generalizing p with
  | nil => rw [scanFrom]
  | cons c rest ih =>
    simp only [List.mem_cons, not_or] at h
    rw [scanFrom, if_neg (Ne.symm h.1), if_pos (hb c List.mem_cons_self),
      ih h.2 fun d hd => hb d (List.mem_cons_of_mem _ hd)]

/-- A line says the same with its end as without. -/
theorem ofText?_append_lineFeed (offset : Nat) {line : List Char} (h : '\n' ∉ line) :
    Line.ofText? offset (line ++ ['\n']) = Line.ofText? offset line := by
  have ht : tokensOn offset (line ++ ['\n']) = tokensOn offset line := by
    rw [tokensOn, scanFrom_append_lineEnd, List.filterMap_append]
    simp [scanFrom, Scanned.kept?, tokensOn]
  unfold Line.ofText?
  rw [ht]
  cases hk : tokensOn offset line with
  | nil => rfl
  | cons first rest =>
    have hne : (line.takeWhile isBlank).length ≠ line.length := by
      intro hlen
      have hall : line.takeWhile isBlank = line := (List.takeWhile_prefix _).eq_of_length hlen
      have hb : ∀ c ∈ line, isBlank c = true := by
        rw [← hall]
        exact List.all_eq_true.mp List.all_takeWhile
      rw [tokensOn, scanFrom_of_blank h hb] at hk
      simp at hk
    rw [List.takeWhile_append, if_neg hne]

theorem linesOf_scanFrom {offset : Nat} {text : List Char}
    (hv : invalidChars (scanFrom ⟨offset, 0, true⟩ text) = []) :
    linesOf (scanFrom ⟨offset, 0, true⟩ text) = layout offset (terminatedLines text) := by
  induction text using Text.line_induction generalizing offset with
  | last line h =>
    rw [linesOf_of_notMem h, ofScanned?_eq_ofText? h hv]
    cases line with
    | nil => simp [terminatedLines, layout, Line.ofText?, tokensOn, scanFrom]
    | cons c rest => rw [terminatedLines_of_notMem h (List.cons_ne_nil _ _), layout, layout, List.append_nil]
  | more line after h ih =>
    rw [scanFrom_append_lineEnd, invalidChars_append, List.append_eq_nil_iff] at hv
    rw [linesOf_append_lineEnd h, ofScanned?_eq_ofText? h hv.1, terminatedLines_append h, layout,
      ofText?_append_lineFeed offset h, ih hv.2, byteLength_append]
    rfl

/-- The lines of a definition without invalid characters. -/
theorem linesOf_scan {source : String} (hv : invalidChars (scan source) = []) :
    linesOf (scan source) = layout 0 (terminatedLines source.toList) :=
  linesOf_scanFrom hv

end Pushdown
