/-
  Pushdown.Proofs.Line.Place — where the tokens of a line stand.

  Every lexeme covers a part of the text that is not empty, a word its own characters, and
  the lexemes follow each other (`standsAt_of_mem_scanFrom`, `scanFrom_pairwise`). So each
  line that says something is a line of the text and its tokens are parts of it
  (`exists_isLine_of_mem`), and lines follow each other as well (`linesOf_pairwise`).
-/

import Pushdown.Proofs.Text.Place
import Pushdown.Proofs.Text.Row

namespace Pushdown

open Text

/-- A lexeme stands in a text where its span says: it covers some characters, a word its
    own. -/
def Lexeme.StandsAt (lexeme : Lexeme) (s : Span) (offset : Nat) (text : List Char) : Prop :=
  ∃ part, part ≠ [] ∧ s.Cuts offset text part ∧ ∀ word, lexeme = .token (.word word) → word.toList = part

/-- The tokens of a line cover parts of a text at a byte offset, each after the other. -/
structure Line.On (l : Line) (offset : Nat) (text : List Char) : Prop where
  standsAt : ∀ t ∈ l.tokens, (Lexeme.token t.value).StandsAt t.span offset text
  ordered : l.tokens.Pairwise fun t u => t.span.Before u.span

/-! ## Lexemes -/

theorem firstLexeme_covers (lineStart : Bool) (c : Char) (rest : List Char) :
    (firstLexeme lineStart c rest).2.1 ≠ [] ∧
      ∀ word, (firstLexeme lineStart c rest).1 = .token (.word word) → word.toList = (firstLexeme lineStart c rest).2.1 := by
  unfold firstLexeme
  split
  · next t ht =>
    refine ⟨List.cons_ne_nil _ _, ?_⟩
    intro word hw
    obtain rfl : t = .word word := by simpa using hw
    unfold Token.punctuation? at ht
    split at ht <;> cases ht
  · split
    · exact ⟨List.cons_ne_nil _ _, by simp⟩
    · split
      · exact ⟨List.cons_ne_nil _ _, by simp⟩
      · split
        · exact ⟨List.cons_ne_nil _ _, by simp⟩
        · refine ⟨List.cons_ne_nil _ _, ?_⟩
          intro word hw
          obtain rfl : String.ofList (c :: (splitWord rest).1) = word := by simpa using hw
          exact String.toList_ofList

theorem Lexeme.StandsAt.append {lexeme : Lexeme} {s : Span} {offset : Nat} {text : List Char} (before after : List Char)
    (h : lexeme.StandsAt s (offset + byteLength before) text) : lexeme.StandsAt s offset (before ++ text ++ after) := by
  obtain ⟨part, hne, hcuts, hword⟩ := h
  exact ⟨part, hne, hcuts.append before after, hword⟩

theorem standsAt_scanned {p : Cursor} {covered after : List Char} {lexeme : Lexeme} (hne : covered ≠ [])
    (hword : ∀ word, lexeme = .token (.word word) → word.toList = covered) :
    lexeme.StandsAt (p.scanned covered lexeme).span p.offset (covered ++ after) :=
  ⟨covered, hne, ⟨[], after, rfl, rfl⟩, hword⟩

theorem standsAt_of_mem_scanFrom {p : Cursor} {text : List Char} :
    ∀ s ∈ scanFrom p text, s.lexeme.StandsAt s.span p.offset text := by
  fun_induction scanFrom p text with
  | case1 p => simp
  | case2 p rest ih =>
    intro s hs
    rcases List.mem_cons.mp hs with rfl | hs
    · exact standsAt_scanned (List.cons_ne_nil _ _) (by simp [Cursor.scanned])
    · simpa using Lexeme.StandsAt.append ['\n'] [] (ih s hs)
  | case3 p c rest hc hb ih =>
    intro s hs
    simpa using Lexeme.StandsAt.append [c] [] (ih s hs)
  | case4 p c rest hc hb first ih =>
    intro s hs
    obtain ⟨hne, hword⟩ := firstLexeme_covers p.lineStart c rest
    rw [← firstLexeme_append p.lineStart c rest]
    rcases List.mem_cons.mp hs with rfl | hs
    · exact standsAt_scanned hne hword
    · simpa using Lexeme.StandsAt.append first.2.1 [] (ih s hs)

theorem scanFrom_pairwise (p : Cursor) (text : List Char) :
    (scanFrom p text).Pairwise fun s t => s.span.Before t.span := by
  have hstart : ∀ {q : Cursor} {rest : List Char}, ∀ t ∈ scanFrom q rest, q.offset ≤ t.span.start := by
    intro q rest t ht
    obtain ⟨part, -, hcuts, -⟩ := standsAt_of_mem_scanFrom t ht
    exact hcuts.bounds.1
  fun_induction scanFrom p text with
  | case1 p => exact .nil
  | case2 p rest ih => exact .cons (fun t ht => hstart t ht) ih
  | case3 p c rest hc hb ih => exact ih
  | case4 p c rest hc hb first ih => exact .cons (fun t ht => hstart t ht) ih

/-! ## The places of a line -/

namespace Line

/-- The tokens follow each other. -/
def InOrder (l : Line) : Prop := Span.Row (l.tokens.map Located.span)

/-- Where a token begins or ends. -/
def HasMark (l : Line) (i : Nat) : Prop := ∃ t ∈ l.tokens, i = t.span.start ∨ i = t.span.stop

/-- The place of some tokens, or just before or after one. -/
structure HasPlace (l : Line) (s : Span) : Prop where
  start : l.HasMark s.start
  stop : l.HasMark s.stop
  le : s.start ≤ s.stop

variable {l : Line}

theorem InOrder.holds (h : l.InOrder) : l.span.Holds (l.tokens.map Located.span) := by
  refine Span.Row.holds h ?_ ?_
  · rw [List.head?_map, List.head?_eq_some_head l.tokens_ne_nil, Option.map_some]
  · rw [List.getLast?_map, List.getLast?_eq_some_getLast l.tokens_ne_nil, Option.map_some]

/-- Some of the tokens stand in a row on the line. -/
theorem InOrder.some (h : l.InOrder) {tokens : List (Located Token)} (hs : tokens.Sublist l.tokens) :
    l.span.Holds (tokens.map Located.span) :=
  h.holds.sublist (hs.map _)

theorem InOrder.hasPlace (h : l.InOrder) {t : Located Token} (ht : t ∈ l.tokens) : l.HasPlace t.span :=
  ⟨⟨t, ht, .inl rfl⟩, ⟨t, ht, .inr rfl⟩, Span.Row.le h _ (List.mem_map_of_mem ht)⟩

theorem HasPlace.join {s t : Span} (hs : l.HasPlace s) (ht : l.HasPlace t) : l.HasPlace (s.join t) := by
  obtain ⟨hstart, hstop, hle⟩ := hs
  obtain ⟨hstart', hstop', hle'⟩ := ht
  refine ⟨?_, ?_, ?_⟩
  · rcases Nat.le_total s.start t.start with h | h
    · simpa only [Span.join, Nat.min_eq_left h] using hstart
    · simpa only [Span.join, Nat.min_eq_right h] using hstart'
  · rcases Nat.le_total s.stop t.stop with h | h
    · simpa only [Span.join, Nat.max_eq_right h] using hstop'
    · simpa only [Span.join, Nat.max_eq_left h] using hstop
  · simp only [Span.join]
    omega

theorem HasPlace.atStart {s : Span} (h : l.HasPlace s) : l.HasPlace (.point s.start) :=
  ⟨h.start, h.start, Nat.le_refl _⟩

theorem HasPlace.atStop {s : Span} (h : l.HasPlace s) : l.HasPlace (.point s.stop) :=
  ⟨h.stop, h.stop, Nat.le_refl _⟩

theorem InOrder.hasPlace_span (h : l.InOrder) : l.HasPlace l.span :=
  (h.hasPlace (List.head_mem _)).join (h.hasPlace (List.getLast_mem _))

namespace On

variable {offset : Nat} {text : List Char}

theorem within (h : l.On offset text) {t : Located Token} (ht : t ∈ l.tokens) : t.span.Within offset text := by
  obtain ⟨part, -, hcuts, -⟩ := h.standsAt t ht
  exact ⟨part, hcuts⟩

theorem inOrder (h : l.On offset text) : l.InOrder := by
  refine ⟨?_, List.pairwise_map.mpr h.ordered⟩
  intro s hs
  obtain ⟨t, ht, rfl⟩ := List.mem_map.mp hs
  exact (h.within ht).bounds.2.1

/-- The places of a line are on it. -/
theorem within_of_hasPlace (h : l.On offset text) {s : Span} (hs : l.HasPlace s) : s.Within offset text := by
  have hmark : ∀ i, l.HasMark i → IsBorder offset text i := by
    intro i hi
    obtain ⟨t, ht, rfl | rfl⟩ := hi
    · exact (within_iff.mp (h.within ht)).1
    · exact (within_iff.mp (h.within ht)).2.1
  exact within_iff.mpr ⟨hmark _ hs.start, hmark _ hs.stop, hs.le⟩

theorem span_within (h : l.On offset text) : l.span.Within offset text :=
  h.within_of_hasPlace h.inOrder.hasPlace_span

end On

end Line

/-! ## One line -/

theorem kept?_eq_some {s : Scanned} {kept : Nat × Located Token} (h : s.kept? = some kept) :
    s.lexeme = .token kept.2.value ∧ s.span = kept.2.span := by
  obtain ⟨lexeme, place, column⟩ := s
  unfold Scanned.kept? at h
  split at h
  · cases h
  · cases h
  · next t _ _ ht =>
    cases h
    exact ⟨ht, rfl⟩
  · cases h

theorem on_of_ofScanned? {p : Cursor} {text : List Char} {l : Line} (h : Line.ofScanned? (scanFrom p text) = some l) :
    l.On p.offset text := by
  have htokens : l.tokens = ((scanFrom p text).filterMap Scanned.kept?).map Prod.snd := by
    unfold Line.ofScanned? at h
    split at h
    · cases h
    · next first rest hk =>
      cases h
      rw [hk, List.map_cons]
  refine ⟨?_, ?_⟩
  · intro t ht
    rw [htokens] at ht
    obtain ⟨kept, hmem, rfl⟩ := List.mem_map.mp ht
    obtain ⟨s, hs, hk⟩ := List.mem_filterMap.mp hmem
    obtain ⟨hlexeme, hspan⟩ := kept?_eq_some hk
    have := standsAt_of_mem_scanFrom s hs
    rwa [hlexeme, hspan] at this
  · rw [htokens, List.pairwise_map, List.pairwise_filterMap]
    refine (scanFrom_pairwise p text).imp ?_
    intro s t hst kept hs kept' ht
    rwa [(kept?_eq_some hs).2, (kept?_eq_some ht).2] at hst

/-! ## The lines of a text -/

/-- Each line that says something is a line of the text. -/
theorem exists_isLine_of_mem {offset : Nat} {text : List Char} {l : Line}
    (h : l ∈ linesOf (scanFrom ⟨offset, 0, true⟩ text)) :
    ∃ above line, IsLine text above line ∧ l.On (offset + byteLength above.flatten) line := by
  induction text using Text.line_induction generalizing offset with
  | last line hline =>
    rw [linesOf_of_notMem hline] at h
    have hon := on_of_ofScanned? (Option.mem_toList.mp h)
    have hne : line ≠ [] := by
      intro hnil
      subst hnil
      rw [scanFrom] at h
      cases h
    exact ⟨[], line, isLine_of_notMem hline hne, hon⟩
  | more line after hline ih =>
    rw [linesOf_append_lineEnd hline] at h
    rcases List.mem_append.mp h with h | h
    · exact ⟨[], line, isLine_first hline after, on_of_ofScanned? (Option.mem_toList.mp h)⟩
    · obtain ⟨above, below, hbelow, hon⟩ := ih h
      have hsize : '\n'.utf8Size = 1 := by decide
      refine ⟨(line ++ ['\n']) :: above, below, hbelow.below hline, ?_⟩
      simpa [hsize, Nat.add_assoc] using hon

theorem within_of_mem_invalidChars {p : Cursor} {text : List Char} {c : Located Char}
    (h : c ∈ invalidChars (scanFrom p text)) : c.span.Within p.offset text := by
  obtain ⟨s, hs, hc⟩ := List.mem_filterMap.mp h
  obtain ⟨part, -, hcuts, -⟩ := standsAt_of_mem_scanFrom s hs
  split at hc
  · cases hc
    exact ⟨part, hcuts⟩
  · cases hc

/-- So does each character that no token may hold. -/
theorem exists_isLine_of_mem_invalidChars {offset : Nat} {text : List Char} {c : Located Char}
    (h : c ∈ invalidChars (scanFrom ⟨offset, 0, true⟩ text)) :
    ∃ above line, IsLine text above line ∧ c.span.Within (offset + byteLength above.flatten) line := by
  induction text using Text.line_induction generalizing offset with
  | last line hline =>
    have hne : line ≠ [] := by
      intro hnil
      subst hnil
      rw [scanFrom] at h
      cases h
    exact ⟨[], line, isLine_of_notMem hline hne, within_of_mem_invalidChars h⟩
  | more line after hline ih =>
    rw [invalidChars_append_lineEnd] at h
    rcases List.mem_append.mp h with h | h
    · exact ⟨[], line, isLine_first hline after, within_of_mem_invalidChars h⟩
    · obtain ⟨above, below, hbelow, hc⟩ := ih h
      have hsize : '\n'.utf8Size = 1 := by decide
      refine ⟨(line ++ ['\n']) :: above, below, hbelow.below hline, ?_⟩
      simpa [hsize, Nat.add_assoc] using hc

/-- At least a line feed stands between two lines. -/
theorem linesOf_apart (offset : Nat) (text : List Char) :
    (linesOf (scanFrom ⟨offset, 0, true⟩ text)).Pairwise fun l l' => l.span.stop < l'.span.start := by
  induction text using Text.line_induction generalizing offset with
  | last line hline =>
    rw [linesOf_of_notMem hline]
    cases Line.ofScanned? (scanFrom ⟨offset, 0, true⟩ line) <;> simp
  | more line after hline ih =>
    rw [linesOf_append_lineEnd hline, List.pairwise_append]
    refine ⟨?_, ih _, ?_⟩
    · cases Line.ofScanned? (scanFrom ⟨offset, 0, true⟩ line) <;> simp
    · intro l hl l' hl'
      have hstop : l.span.stop ≤ offset + byteLength line :=
        (on_of_ofScanned? (Option.mem_toList.mp hl)).span_within.bounds.2.2
      obtain ⟨above, below, -, hon⟩ := exists_isLine_of_mem hl'
      have hstart := hon.span_within.bounds.1
      omega

theorem linesOf_pairwise (offset : Nat) (text : List Char) :
    (linesOf (scanFrom ⟨offset, 0, true⟩ text)).Pairwise fun l l' => l.span.Before l'.span :=
  (linesOf_apart offset text).imp Nat.le_of_lt

end Pushdown
