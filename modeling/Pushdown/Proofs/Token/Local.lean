/-
  Pushdown.Proofs.Token.Local — no lexeme crosses a line end.

  `scanFrom_append_lineEnd`: a text that goes on after a line feed scans to the lexemes of
  the part before it, the line end, and the lexemes of the part after it, read from the
  start of a line. To everything that looks ahead, a line feed and the end of a text are
  the same, and past the line feed nothing is left of what stood before but the offset.
-/

import Pushdown.Token.Scan

namespace Pushdown

open Text

/-- The number of characters since the last line feed, after some text. -/
def columnAfter (column : Nat) : List Char → Nat
  | [] => column
  | c :: rest => columnAfter (if c = '\n' then 0 else column + 1) rest

theorem columnAfter_append (column : Nat) (a b : List Char) :
    columnAfter column (a ++ b) = columnAfter (columnAfter column a) b := by
  induction a generalizing column with
  | nil => rfl
  | cons c rest ih => exact ih _

theorem columnAfter_of_notMem {column : Nat} {text : List Char} (h : '\n' ∉ text) :
    columnAfter column text = column + text.length := by
  induction text generalizing column with
  | nil => rfl
  | cons c rest ih =>
    simp only [List.mem_cons, not_or] at h
    rw [columnAfter, if_neg (Ne.symm h.1), ih h.2, List.length_cons]
    omega

/-! ## What stands before a blank -/

theorem isBlank_lineFeed : isBlank '\n' = true := by decide

section Blank

variable {b : Char} (hb : isBlank b = true)
include hb

theorem head?_append_blank (text after : List Char) :
    (text ++ b :: after).head? = some '>' ↔ text.head? = some '>' := by
  cases text with
  | nil =>
    refine iff_of_false ?_ (by simp)
    intro h
    cases h
    exact absurd hb (by decide)
  | cons c rest => exact Iff.rfl

theorem endsWord_append_blank (text after : List Char) : endsWord (text ++ b :: after) = endsWord text := by
  cases text with
  | nil => simp [endsWord, hb]
  | cons c rest =>
    have hhead : ((rest ++ b :: after).head? == some '>') = (rest.head? == some '>') := by
      rw [Bool.eq_iff_iff, beq_iff_eq, beq_iff_eq, head?_append_blank hb]
    simp only [List.cons_append, endsWord, hhead]

theorem splitWord_append_blank (text after : List Char) :
    splitWord (text ++ b :: after) = ((splitWord text).1, (splitWord text).2 ++ b :: after) := by
  induction text with
  | nil => simp [splitWord, endsWord, hb]
  | cons c rest ih =>
    have h := endsWord_append_blank hb (c :: rest) after
    rw [List.cons_append] at h ⊢
    simp only [splitWord, h, ih]
    split <;> rfl

/-- What is no comment ends before a blank. -/
theorem firstLexeme_append_blank {lineStart : Bool} {c : Char} (hc : ¬ (c = '#' ∧ lineStart = true))
    (rest after : List Char) :
    firstLexeme lineStart c (rest ++ b :: after) =
      ((firstLexeme lineStart c rest).1, (firstLexeme lineStart c rest).2.1,
        (firstLexeme lineStart c rest).2.2 ++ b :: after) := by
  simp only [firstLexeme, head?_append_blank hb, splitWord_append_blank hb, if_neg hc]
  cases hp : Token.punctuation? c with
  | some t => rfl
  | none =>
    simp only
    split
    · next h => cases rest with
      | nil => simp at h
      | cons d rest => rfl
    · split <;> rfl

end Blank

/-! ## A lexeme before a line feed -/

theorem splitLine_append_lineFeed (text after : List Char) :
    splitLine (text ++ '\n' :: after) = ((splitLine text).1, (splitLine text).2 ++ '\n' :: after) := by
  induction text with
  | nil => simp [splitLine]
  | cons c rest ih =>
    simp only [splitLine, List.cons_append, Prod.mk.injEq] at ih ⊢
    by_cases hc : c = '\n'
    · subst hc; simp
    · simp [hc, ih]

/-- A `#` at the start of a line opens a comment. -/
theorem firstLexeme_comment (rest : List Char) :
    firstLexeme true '#' rest =
      (.token (.comment (String.ofList (splitLine rest).1)), '#' :: (splitLine rest).1, (splitLine rest).2) := by
  simp [firstLexeme, Token.punctuation?]

theorem firstLexeme_append_lineFeed (lineStart : Bool) (c : Char) (rest after : List Char) :
    firstLexeme lineStart c (rest ++ '\n' :: after) =
      ((firstLexeme lineStart c rest).1, (firstLexeme lineStart c rest).2.1,
        (firstLexeme lineStart c rest).2.2 ++ '\n' :: after) := by
  by_cases hc : c = '#' ∧ lineStart = true
  · obtain ⟨rfl, rfl⟩ := hc
    simp only [firstLexeme_comment, splitLine_append_lineFeed]
  · exact firstLexeme_append_blank isBlank_lineFeed hc rest after

/-! ## What a lexeme covers -/

theorem firstLexeme_append (lineStart : Bool) (c : Char) (rest : List Char) :
    (firstLexeme lineStart c rest).2.1 ++ (firstLexeme lineStart c rest).2.2 = c :: rest := by
  unfold firstLexeme
  split
  · rfl
  · split
    · next h =>
      obtain ⟨d, hd⟩ : ∃ d, rest = '>' :: d := by
        cases rest with
        | nil => simp at h
        | cons d rest => exact ⟨rest, by simpa using h.2⟩
      rw [hd]; rfl
    · split
      · simp [splitLine_append]
      · split
        · rfl
        · simp [splitWord_append]

theorem splitWord_notMem_lineFeed (text : List Char) : '\n' ∉ (splitWord text).1 := by
  induction text with
  | nil => simp [splitWord]
  | cons c rest ih =>
    unfold splitWord
    split
    · simp
    · next h =>
      have hc : '\n' ≠ c := by
        intro e
        subst e
        exact h (by simp [endsWord, isBlank_lineFeed])
      simp only [List.mem_cons, not_or]
      exact ⟨hc, ih⟩

theorem splitLine_notMem_lineFeed (text : List Char) : '\n' ∉ (splitLine text).1 := by
  intro h
  have hall := List.all_eq_true.mp (List.all_takeWhile (p := (· != '\n')) (l := text)) _ h
  simp at hall

theorem splitLine_of_notMem {text : List Char} (h : '\n' ∉ text) : splitLine text = (text, []) := by
  have hall : ∀ c ∈ text, (c != '\n') = true := by
    intro c hc
    rw [bne_iff_ne]
    intro e
    exact h (e ▸ hc)
  have htake := @List.takeWhile_append_of_pos _ _ text [] hall
  have hdrop := @List.dropWhile_append_of_pos _ _ text [] hall
  rw [List.append_nil] at htake hdrop
  rw [splitLine, htake, hdrop]
  simp

/-- A lexeme that does not begin with a line feed covers none. -/
theorem firstLexeme_notMem_lineFeed {lineStart : Bool} {c : Char} (hc : c ≠ '\n') (rest : List Char) :
    '\n' ∉ (firstLexeme lineStart c rest).2.1 := by
  have hw := splitWord_notMem_lineFeed rest
  have hl := splitLine_notMem_lineFeed rest
  unfold firstLexeme
  split
  · simp [Ne.symm hc]
  · split
    · simp [Ne.symm hc]
    · split
      · simp [Ne.symm hc, hl]
      · split
        · simp [Ne.symm hc]
        · simp [Ne.symm hc, hw]

theorem firstLexeme_ne_lineEnd (lineStart : Bool) (c : Char) (rest : List Char) :
    (firstLexeme lineStart c rest).1 ≠ .token .lineEnd := by
  unfold firstLexeme
  split
  · next t ht =>
    intro he
    have : t = .lineEnd := by simpa using he
    subst this
    unfold Token.punctuation? at ht
    split at ht <;> simp at ht
  · split
    · simp
    · split
      · simp
      · split <;> simp

theorem punctuation?_ne_comment {c : Char} {text : String} : Token.punctuation? c ≠ some (.comment text) := by
  unfold Token.punctuation?
  split <;> simp

/-- A comment takes the rest of its line. -/
theorem firstLexeme_of_comment {lineStart : Bool} {c : Char} {rest : List Char} {text : String}
    (hc : (firstLexeme lineStart c rest).1 = .token (.comment text)) (h : '\n' ∉ rest) :
    (firstLexeme lineStart c rest).2.2 = [] := by
  unfold firstLexeme at hc ⊢
  split at hc
  · next t ht =>
    have : t = .comment text := by simpa using hc
    exact absurd (this ▸ ht) punctuation?_ne_comment
  · next hp =>
    split at hc
    · simp at hc
    · split at hc
      · next hd hs => simp [if_neg hd, if_pos hs, splitLine_of_notMem h]
      · split at hc <;> simp at hc

/-! ## The scan of a text with a line feed in it -/

theorem scanFrom_append_lineEnd (p : Cursor) (before after : List Char) :
    scanFrom p (before ++ '\n' :: after) =
      scanFrom p before ++
        ⟨.token .lineEnd, ⟨p.offset + byteLength before, p.offset + byteLength before + 1⟩,
          columnAfter p.column before⟩ ::
        scanFrom ⟨p.offset + byteLength before + 1, 0, true⟩ after := by
  fun_induction scanFrom p before with
  | case1 p => rw [List.nil_append, scanFrom, if_pos rfl]; rfl
  | case2 p rest ih =>
    have hsize : '\n'.utf8Size = 1 := by decide
    rw [List.cons_append, scanFrom, if_pos rfl, ih]
    simp [Cursor.newLine, columnAfter, hsize, Nat.add_assoc]
  | case3 p c rest hc hb ih =>
    rw [List.cons_append, scanFrom, if_neg hc, if_pos hb, ih]
    simp [Cursor.skip, columnAfter, hc, Nat.add_assoc]
  | case4 p c rest hc hb first ih =>
    have hcover : first.2.1 ++ first.2.2 = c :: rest := firstLexeme_append p.lineStart c rest
    have hno : '\n' ∉ first.2.1 := firstLexeme_notMem_lineFeed hc rest
    have hcol : columnAfter p.column (c :: rest) = columnAfter (p.column + first.2.1.length) first.2.2 := by
      rw [← hcover, columnAfter_append, columnAfter_of_notMem hno]
    have hlen : byteLength (c :: rest) = byteLength first.2.1 + byteLength first.2.2 := by
      rw [← hcover, byteLength_append]
    rw [List.cons_append, scanFrom, if_neg hc, if_neg hb, firstLexeme_append_lineFeed, hcol, hlen]
    simp only [Cursor.pass] at ih ⊢
    rw [ih, List.cons_append]
    simp only [Nat.add_assoc]
    rfl

end Pushdown
