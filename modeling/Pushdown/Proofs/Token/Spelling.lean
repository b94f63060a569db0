/-
  Pushdown.Proofs.Token.Spelling — texts that are scanned as one word.

  What a scan finds does not depend on where it stands (`lexemesFrom`). A word of a scan
  is a word by itself (`isWord_of_mem_lexemes`), and is found again wherever a blank or
  punctuation follows it, but for a `#` at the start of a line (`lexemesFrom_word`). Which
  texts are words can be told from their characters (`isWord_iff_lexable`).
-/

import Pushdown.Proofs.Token.Local

namespace Pushdown

open Text

/-- A text that is one word, where it does not open a comment. -/
def IsWord (text : String) : Prop := text.toList ≠ [] ∧ splitWord text.toList = (text.toList, [])

instance (text : String) : Decidable (IsWord text) := inferInstanceAs (Decidable (_ ∧ _))

/-- Whether a text would open a comment at the start of a line. -/
def OpensComment (text : String) : Prop := text.toList.head? = some '#'

instance (text : String) : Decidable (OpensComment text) := inferInstanceAs (Decidable (_ = _))

/-- A text that ends any word before it: nothing, or one that begins with a blank or with
    punctuation. -/
def Stops (after : List Char) : Prop := ∀ c ∈ after.head?, isBlank c = true ∨ (Token.punctuation? c).isSome = true

/-! ## A word before a text that ends it -/

theorem stops_nil : Stops [] := by simp [Stops]

theorem stops_cons {c : Char} {after : List Char} (h : isBlank c = true ∨ (Token.punctuation? c).isSome = true) :
    Stops (c :: after) := by
  intro d hd
  cases hd
  exact h

theorem Stops.head?_ne {after : List Char} (h : Stops after) : after.head? ≠ some '>' := by
  intro hc
  rcases h '>' hc with hb | hp
  · exact absurd hb (by decide)
  · exact absurd hp (by decide)

theorem Stops.endsWord {after : List Char} (h : Stops after) : endsWord after = true := by
  cases after with
  | nil => rfl
  | cons c rest =>
    rcases h c rfl with hb | hp
    · simp [Pushdown.endsWord, hb]
    · simp [Pushdown.endsWord, hp]

theorem endsWord_append {c : Char} {rest after : List Char} (h : Stops after) :
    endsWord (c :: rest ++ after) = endsWord (c :: rest) := by
  cases rest with
  | nil => simp [endsWord, h.head?_ne]
  | cons d rest => rfl

theorem splitWord_cons {c : Char} {rest word : List Char} :
    splitWord (c :: rest) = (c :: word, []) ↔ endsWord (c :: rest) = false ∧ splitWord rest = (word, []) := by
  rw [splitWord]
  split
  · next h => simp [h]
  · next h => simp [h, Prod.ext_iff]

theorem splitWord_append_of_stops {word after : List Char} (hw : splitWord word = (word, [])) (h : Stops after) :
    splitWord (word ++ after) = (word, after) := by
  induction word with
  | nil =>
    cases after with
    | nil => rfl
    | cons c rest => rw [List.nil_append, splitWord, if_pos h.endsWord]
  | cons c rest ih =>
    obtain ⟨he, hr⟩ := splitWord_cons.mp hw
    have he' : endsWord (c :: (rest ++ after)) = false := (endsWord_append h).trans he
    rw [List.cons_append, splitWord, if_neg (by simp [he']), ih hr]

/-- A character goes on as a word exactly when it begins no other lexeme. -/
theorem endsWord_eq_false {c : Char} {rest : List Char} :
    endsWord (c :: rest) = false ↔
      isBlank c = false ∧ isControl c = false ∧ Token.punctuation? c = none ∧ ¬ (c = '-' ∧ rest.head? = some '>') := by
  simp [endsWord, and_assoc]

theorem head?_splitWord {text : List Char} {c : Char} (h : (splitWord text).1.head? = some c) :
    text.head? = some c := by
  cases text with
  | nil => cases h
  | cons d rest =>
    rw [splitWord] at h
    split at h
    · cases h
    · exact h

/-- Past a character there is an arrow in its word only if there is one in the text. -/
theorem endsWord_splitWord {c : Char} {rest : List Char} (h : endsWord (c :: rest) = false) :
    endsWord (c :: (splitWord rest).1) = false := by
  rw [endsWord_eq_false] at h ⊢
  obtain ⟨hb, hcontrol, hp, harrow⟩ := h
  exact ⟨hb, hcontrol, hp, fun ⟨hc, hg⟩ => harrow ⟨hc, head?_splitWord hg⟩⟩

/-- A word that was cut from a text is a word by itself. -/
theorem splitWord_fst (text : List Char) : splitWord (splitWord text).1 = ((splitWord text).1, []) := by
  induction text with
  | nil => rfl
  | cons c rest ih =>
    rw [splitWord]
    split
    · rfl
    · next he => exact splitWord_cons.mpr ⟨endsWord_splitWord (by simpa using he), ih⟩

/-! ## Words by their characters -/

/-- A text that holds nothing which ends a word. -/
structure Lexable (text : String) : Prop where
  ne_nil : text.toList ≠ []
  chars : ∀ c ∈ text.toList, isBlank c = false ∧ isControl c = false ∧ c ∉ ['(', ')', '[', ']', ',', ':']
  arrow : ¬ ['-', '>'] <:+: text.toList

theorem punctuation?_eq_none {c : Char} :
    Token.punctuation? c = none ↔ c ∉ ['(', ')', '[', ']', ',', ':'] := by
  unfold Token.punctuation?
  split <;> simp_all

theorem arrow_prefix_cons {c : Char} {rest : List Char} :
    ['-', '>'] <+: c :: rest ↔ c = '-' ∧ rest.head? = some '>' := by
  rw [List.cons_prefix_cons, eq_comm (a := '-')]
  cases rest <;> simp [eq_comm]

theorem splitWord_eq_self {text : List Char} :
    splitWord text = (text, []) ↔
      (∀ c ∈ text, isBlank c = false ∧ isControl c = false ∧ c ∉ ['(', ')', '[', ']', ',', ':']) ∧
        ¬ ['-', '>'] <:+: text := by
  induction text with
  | nil => simp [splitWord]
  | cons c rest ih =>
    rw [splitWord_cons, ih, endsWord_eq_false, punctuation?_eq_none, List.infix_cons_iff, arrow_prefix_cons,
      List.forall_mem_cons, not_or]
    refine ⟨?_, ?_⟩
    · intro h
      obtain ⟨⟨hb, hcontrol, hp, harrow⟩, hrest, hinfix⟩ := h
      exact ⟨⟨⟨hb, hcontrol, hp⟩, hrest⟩, harrow, hinfix⟩
    · intro h
      obtain ⟨⟨⟨hb, hcontrol, hp⟩, hrest⟩, harrow, hinfix⟩ := h
      exact ⟨⟨hb, hcontrol, hp, harrow⟩, hrest, hinfix⟩

theorem isWord_iff_lexable {text : String} : IsWord text ↔ Lexable text := by
  rw [IsWord, splitWord_eq_self]
  refine ⟨?_, ?_⟩
  · intro h
    exact ⟨h.1, h.2.1, h.2.2⟩
  · intro h
    exact ⟨h.ne_nil, h.chars, h.arrow⟩

instance (text : String) : Decidable (Lexable text) := decidable_of_iff _ isWord_iff_lexable

/-! ## Lexemes without their places -/

theorem map_lexeme_scanFrom {p q : Cursor} (h : p.lineStart = q.lineStart) (text : List Char) :
    (scanFrom p text).map Scanned.lexeme = (scanFrom q text).map Scanned.lexeme := by
  fun_induction scanFrom p text generalizing q with
  | case1 p => rw [scanFrom]
  | case2 p rest ih =>
    rw [scanFrom, if_pos rfl, List.map_cons, List.map_cons]
    exact congrArg _ (ih rfl)
  | case3 p c rest hc hb ih =>
    rw [scanFrom, if_neg hc, if_pos hb]
    exact ih h
  | case4 p c rest hc hb first =>
    rename_i ih
    rw [scanFrom, if_neg hc, if_neg hb, ← h, List.map_cons, List.map_cons]
    exact congrArg _ (ih rfl)

/-- The lexemes of a text, without their places. -/
def lexemesFrom (lineStart : Bool) (text : List Char) : List Lexeme :=
  (scanFrom ⟨0, 0, lineStart⟩ text).map Scanned.lexeme

theorem lexeme_scanFrom (p : Cursor) (text : List Char) :
    (scanFrom p text).map Scanned.lexeme = lexemesFrom p.lineStart text :=
  @map_lexeme_scanFrom p ⟨0, 0, p.lineStart⟩ rfl text

@[simp] theorem lexemesFrom_nil (lineStart : Bool) : lexemesFrom lineStart [] = [] := by
  rw [lexemesFrom, scanFrom]
  rfl

theorem lexemesFrom_lineFeed (lineStart : Bool) (rest : List Char) :
    lexemesFrom lineStart ('\n' :: rest) = .token .lineEnd :: lexemesFrom true rest := by
  rw [lexemesFrom, scanFrom, if_pos rfl, List.map_cons, lexeme_scanFrom]
  rfl

theorem lexemesFrom_blank {lineStart : Bool} {c : Char} {rest : List Char} (hc : c ≠ '\n') (hb : isBlank c = true) :
    lexemesFrom lineStart (c :: rest) = lexemesFrom lineStart rest := by
  rw [lexemesFrom, scanFrom, if_neg hc, if_pos hb]
  exact lexeme_scanFrom _ rest

theorem lexemesFrom_first {lineStart : Bool} {c : Char} {rest : List Char} (hc : c ≠ '\n') (hb : isBlank c = false) :
    lexemesFrom lineStart (c :: rest) =
      (firstLexeme lineStart c rest).1 :: lexemesFrom false (firstLexeme lineStart c rest).2.2 := by
  rw [lexemesFrom, scanFrom, if_neg hc, if_neg (by simp [hb])]
  simp only [List.map_cons]
  rw [lexeme_scanFrom]
  rfl

@[simp] theorem lexemesFrom_space (lineStart : Bool) (rest : List Char) :
    lexemesFrom lineStart (' ' :: rest) = lexemesFrom lineStart rest :=
  lexemesFrom_blank (by decide) (by decide)

theorem lexemesFrom_punctuation {lineStart : Bool} {c : Char} {t : Token} (h : Token.punctuation? c = some t)
    (rest : List Char) : lexemesFrom lineStart (c :: rest) = .token t :: lexemesFrom false rest := by
  have hc : c ≠ '\n' ∧ isBlank c = false := by
    unfold Token.punctuation? at h
    split at h <;> first | exact ⟨by decide, by decide⟩ | cases h
  rw [lexemesFrom_first hc.1 hc.2]
  simp [firstLexeme, h]

theorem lexemesFrom_arrow {lineStart : Bool} (rest : List Char) :
    lexemesFrom lineStart ('-' :: '>' :: rest) = .token .arrow :: lexemesFrom false rest := by
  rw [lexemesFrom_first (by decide) (by decide)]
  simp [firstLexeme, Token.punctuation?]

theorem IsWord.head_not_blank {text : String} (h : IsWord text) (after : List Char) :
    ∀ c ∈ (text.toList ++ after).head?, isBlank c = false := by
  obtain ⟨hne, hsplit⟩ := h
  intro c hc
  cases htext : text.toList with
  | nil => exact absurd htext hne
  | cons d rest =>
    rw [htext] at hsplit hc
    cases hc
    exact (endsWord_eq_false.mp (splitWord_cons.mp hsplit).1).1

/-- A word is scanned as itself. -/
theorem lexemesFrom_word {lineStart : Bool} {text : String} (hw : IsWord text)
    (hs : lineStart = true → ¬ OpensComment text) {after : List Char} (h : Stops after) :
    lexemesFrom lineStart (text.toList ++ after) = .token (.word text) :: lexemesFrom false after := by
  obtain ⟨hne, hsplit⟩ := hw
  have htext : String.ofList text.toList = text := String.ofList_toList
  unfold OpensComment at hs
  generalize text.toList = chars at hne hsplit hs htext
  cases chars with
  | nil => exact absurd rfl hne
  | cons c rest =>
    obtain ⟨he, hr⟩ := splitWord_cons.mp hsplit
    obtain ⟨hb, hcontrol, hp, harrow⟩ := endsWord_eq_false.mp he
    have hline : c ≠ '\n' := by
      intro h
      subst h
      exact absurd hb (by decide)
    have harrow' : ¬ (c = '-' ∧ (rest ++ after).head? = some '>') := by
      intro hd
      obtain ⟨rfl, hg⟩ := hd
      cases rest with
      | nil => exact h.head?_ne hg
      | cons d rest => exact harrow ⟨rfl, hg⟩
    have hcomment : ¬ (c = '#' ∧ lineStart = true) := by
      intro h
      obtain ⟨rfl, hl⟩ := h
      exact hs hl rfl
    rw [List.cons_append, lexemesFrom_first hline hb]
    simp only [firstLexeme, hp, if_neg harrow', if_neg hcomment, hcontrol, splitWord_append_of_stops hr h]
    rw [htext]
    rfl

theorem lexemesFrom_word_punctuation {lineStart : Bool} {text : String} (hw : IsWord text)
    (hs : lineStart = true → ¬ OpensComment text) {c : Char} {t : Token} (h : Token.punctuation? c = some t)
    (after : List Char) :
    lexemesFrom lineStart (text.toList ++ c :: after) =
      .token (.word text) :: .token t :: lexemesFrom false after := by
  rw [lexemesFrom_word hw hs (stops_cons (Or.inr (by simp [h]))), lexemesFrom_punctuation h]

theorem lexemesFrom_word_space {lineStart : Bool} {text : String} (hw : IsWord text)
    (hs : lineStart = true → ¬ OpensComment text) (after : List Char) :
    lexemesFrom lineStart (text.toList ++ ' ' :: after) = .token (.word text) :: lexemesFrom false after := by
  rw [lexemesFrom_word hw hs (stops_cons (Or.inl (by decide))), lexemesFrom_space]

/-! ## The words of a scan -/

theorem isWord_of_firstLexeme {lineStart : Bool} {c : Char} {rest : List Char} {text : String}
    (hb : isBlank c = false) (h : (firstLexeme lineStart c rest).1 = .token (.word text)) :
    IsWord text ∧ (lineStart = true → ¬ OpensComment text) := by
  unfold firstLexeme at h
  split at h
  · next t ht =>
    obtain rfl : t = .word text := by simpa using h
    unfold Token.punctuation? at ht
    split at ht <;> cases ht
  · next hp =>
    split at h
    · cases h
    · next harrow =>
      split at h
      · cases h
      · next hcomment =>
        split at h
        · cases h
        · next hcontrol =>
          obtain rfl : String.ofList (c :: (splitWord rest).1) = text := by simpa using h
          unfold IsWord OpensComment
          rw [String.toList_ofList]
          refine ⟨?_, ?_⟩
          · have he : endsWord (c :: rest) = false :=
              endsWord_eq_false.mpr ⟨hb, by simpa using hcontrol, hp, harrow⟩
            exact ⟨List.cons_ne_nil _ _, splitWord_cons.mpr ⟨endsWord_splitWord he, splitWord_fst rest⟩⟩
          · intro hl hc
            exact hcomment ⟨by simpa using hc, hl⟩

/-- Every word of a scan is a word by itself. -/
theorem isWord_of_mem_lexemes {lineStart : Bool} {text : List Char} {word : String}
    (h : .token (.word word) ∈ lexemesFrom lineStart text) : IsWord word := by
  induction hn : text.length using Nat.strongRecOn generalizing text lineStart with
  | ind n ih =>
    cases text with
    | nil => cases lexemesFrom_nil lineStart ▸ h
    | cons c rest =>
      by_cases hc : c = '\n'
      · subst hc
        rw [lexemesFrom_lineFeed] at h
        exact ih rest.length (by simp [← hn]) ((List.mem_cons.mp h).resolve_left (by simp)) rfl
      · cases hb : isBlank c with
        | true =>
          rw [lexemesFrom_blank hc hb] at h
          exact ih rest.length (by simp [← hn]) h rfl
        | false =>
          rw [lexemesFrom_first hc hb] at h
          rcases List.mem_cons.mp h with h | h
          · exact (isWord_of_firstLexeme hb h.symm).1
          · have hlength := firstLexeme_length_le lineStart c rest
            exact ih _ (by simp only [List.length_cons] at hn; omega) h rfl

/-- The first lexeme on a line stands at its start, and a comment is all there is. -/
theorem lexemesFrom_eq_cons {line : List Char} (h : '\n' ∉ line) {l : Lexeme} {rest : List Lexeme}
    (hl : lexemesFrom true line = l :: rest) :
    l ≠ .token .lineEnd ∧ (∀ text, l = .token (.word text) → ¬ OpensComment text) ∧
      ∀ note, l = .token (.comment note) → rest = [] := by
  induction line with
  | nil => cases (lexemesFrom_nil true).symm.trans hl
  | cons c text ih =>
    simp only [List.mem_cons, not_or] at h
    cases hb : isBlank c with
    | true =>
      rw [lexemesFrom_blank (Ne.symm h.1) hb] at hl
      exact ih h.2 hl
    | false =>
      rw [lexemesFrom_first (Ne.symm h.1) hb] at hl
      simp only [List.cons.injEq] at hl
      refine ⟨hl.1 ▸ firstLexeme_ne_lineEnd true c text, ?_, ?_⟩
      · intro text hw
        exact (isWord_of_firstLexeme hb (hl.1.trans hw)).2 rfl
      · intro note hc
        rw [← hl.2, firstLexeme_of_comment (hl.1.trans hc) h.2, lexemesFrom_nil]

end Pushdown
