/-
  Pushdown.Proofs.Line.Written — lines that are written are the lines that are read.

  A written line comes with its indent and its tokens. When every line reads as the
  tokens it comes with, the text of all lines has no invalid character and its layout is
  those indents and tokens (`layout_written`).
-/

import Pushdown.Proofs.Section.Spelling

namespace Pushdown

open Text

/-! ## The tokens of written names -/

/-- Names with commas between them. -/
def Token.separated (names : List String) : List Token := (names.map Token.word).intersperse .comma

theorem lexemesFrom_spaces (lineStart : Bool) (indent : Nat) (text : List Char) :
    lexemesFrom lineStart (List.replicate indent ' ' ++ text) = lexemesFrom lineStart text := by
  induction indent with
  | zero => rfl
  | succ n ih => rw [List.replicate_succ, List.cons_append, lexemesFrom_space, ih]

theorem lexemesFrom_names {names : List String} (hw : ∀ n ∈ names, IsWord n) {after : List Char} (h : Stops after) :
    lexemesFrom false ((", ".intercalate names).toList ++ after) =
      (Token.separated names).map .token ++ lexemesFrom false after := by
  induction names with
  | nil => rfl
  | cons name rest ih =>
    have hname := hw name List.mem_cons_self
    cases rest with
    | nil =>
      rw [String.intercalate_singleton, lexemesFrom_word hname (by simp) h]
      rfl
    | cons next rest =>
      have ih := ih fun n hn => hw n (List.mem_cons_of_mem _ hn)
      have htext : (", ".intercalate (name :: next :: rest)).toList ++ after =
          name.toList ++ ',' :: ' ' :: ((", ".intercalate (next :: rest)).toList ++ after) := by
        simp [-String.toList_intercalate]
      rw [htext, lexemesFrom_word_punctuation hname (by simp) rfl, lexemesFrom_space, ih]
      rfl

/-! ## Written lines -/

/-- A line of text and what it is meant to say. -/
structure WrittenLine where
  text : String
  indent : Nat
  tokens : List Token

/-- A line says what it is meant to. -/
structure WrittenLine.Reads (l : WrittenLine) : Prop where
  lexemes : lexemesFrom true l.text.toList = l.tokens.map .token
  kept : ∀ t ∈ l.tokens, (Lexeme.token t).kept? = some t
  tokens_ne_nil : l.tokens ≠ []
  indent : (l.text.toList.takeWhile isBlank).length = l.indent

theorem filterMap_kept? {tokens : List Token} (h : ∀ t ∈ tokens, (Lexeme.token t).kept? = some t) :
    (tokens.map Lexeme.token).filterMap Lexeme.kept? = tokens := by
  induction tokens with
  | nil => rfl
  | cons t rest ih =>
    rw [List.map_cons, List.filterMap_cons, h t List.mem_cons_self, ih fun t ht => h t (List.mem_cons_of_mem _ ht)]

namespace WrittenLine

theorem reads_of {l : WrittenLine} {body : List Char} (ht : l.text.toList = List.replicate l.indent ' ' ++ body)
    (hb : ∀ c ∈ body.head?, isBlank c = false) (hl : lexemesFrom true body = l.tokens.map .token)
    (hk : ∀ t ∈ l.tokens, (Lexeme.token t).kept? = some t) (hne : l.tokens ≠ []) : l.Reads where
  lexemes := by rw [ht, lexemesFrom_spaces, hl]
  kept := hk
  tokens_ne_nil := hne
  indent := by
    have hspace : ∀ c ∈ List.replicate l.indent ' ', isBlank c = true := by
      intro c hc
      rw [List.eq_of_mem_replicate hc]
      decide
    rw [ht, List.takeWhile_append_of_pos hspace]
    cases body with
    | nil => simp
    | cons c rest => simp [hb c rfl]

variable {l : WrittenLine}

theorem Reads.notMem_lineFeed (h : l.Reads) : '\n' ∉ l.text.toList := by
  intro hm
  obtain ⟨before, after, hsplit, -⟩ := List.eq_append_cons_of_mem hm
  have hmem : Lexeme.token .lineEnd ∈ lexemesFrom true l.text.toList := by
    rw [hsplit, ← lexeme_scanFrom ⟨0, 0, true⟩, scanFrom_append_lineEnd]
    simp
  rw [h.lexemes] at hmem
  obtain ⟨t, ht, he⟩ := List.mem_map.mp hmem
  have hkept := h.kept t ht
  rw [he] at hkept
  cases hkept

theorem Reads.ofText? (h : l.Reads) (offset : Nat) :
    ∃ line, Line.ofText? offset l.text.toList = some line ∧ line.indent = l.indent ∧
      line.tokens.map Located.value = l.tokens := by
  have hvalue : (tokensOn offset l.text.toList).map Located.value = l.tokens := by
    rw [value_tokensOn, h.lexemes, filterMap_kept? h.kept]
  unfold Line.ofText?
  cases ht : tokensOn offset l.text.toList with
  | nil =>
    rw [ht] at hvalue
    exact absurd hvalue.symm h.tokens_ne_nil
  | cons first rest =>
    rw [ht] at hvalue
    exact ⟨_, rfl, h.indent, hvalue⟩

end WrittenLine

/-- What a line says, without the places. -/
def Line.content (l : Line) : Nat × List Token := (l.indent, l.tokens.map Located.value)

def WrittenLine.content (l : WrittenLine) : Nat × List Token := (l.indent, l.tokens)

/-- The text of lines, each with its end. -/
def textOf (lines : List WrittenLine) : List Char := lines.flatMap fun l => l.text.toList ++ ['\n']

theorem layout_written {lines : List WrittenLine} (h : ∀ l ∈ lines, l.Reads) (offset : Nat) :
    invalidChars (scanFrom ⟨offset, 0, true⟩ (textOf lines)) = [] ∧
      (layout offset (terminatedLines (textOf lines))).map Line.content = lines.map WrittenLine.content := by
  induction lines generalizing offset with
  | nil => exact ⟨by simp [textOf, scanFrom, invalidChars], rfl⟩
  | cons l rest ih =>
    have hl := h l List.mem_cons_self
    have ih := ih fun l hm => h l (List.mem_cons_of_mem _ hm)
    have hsplit : textOf (l :: rest) = l.text.toList ++ '\n' :: textOf rest := by simp [textOf]
    rw [hsplit]
    refine ⟨?_, ?_⟩
    · rw [scanFrom_append_lineEnd, invalidChars_append, List.append_eq_nil_iff]
      refine ⟨invalidChars_eq_nil.mpr ?_, (ih _).1⟩
      intro c hc
      rw [hl.lexemes] at hc
      simp at hc
    · obtain ⟨line, hline, hi, ht⟩ := hl.ofText? offset
      rw [terminatedLines_append hl.notMem_lineFeed, layout, ofText?_append_lineFeed offset hl.notMem_lineFeed, hline,
        List.map_append, (ih _).2]
      simp [Line.content, WrittenLine.content, hi, ht]

end Pushdown
