/-
  Pushdown.Proofs.Section.Spelling — how the names of a definition are spelled.

  Every name that was read is a word, and no state header begins with the `#` that would
  have made its line a comment (`spelled_of_read`).
-/

import Pushdown.Proofs.Automaton.Outline
import Pushdown.Proofs.Section.Grammar
import Pushdown.Proofs.Token.Spelling

namespace Pushdown

open Text Grammar

/-! ## Lines -/

/-- The token that a lexeme adds to its line. -/
def Lexeme.kept? : Lexeme → Option Token
  | .token (.comment _) => none
  | .token .lineEnd => none
  | .token t => some t
  | .invalid _ => none

theorem value_kept? (s : Scanned) : (s.kept?.map fun k => k.2.value) = s.lexeme.kept? := by
  unfold Scanned.kept? Lexeme.kept?
  split <;> simp_all

theorem value_tokensOn (offset : Nat) (text : List Char) :
    (tokensOn offset text).map Located.value = (lexemesFrom true text).filterMap Lexeme.kept? := by
  rw [← lexeme_scanFrom ⟨offset, 0, true⟩ text, List.filterMap_map, tokensOn, List.map_map, List.map_filterMap]
  congr
  funext s
  exact value_kept? s

theorem invalidChars_eq_nil {p : Cursor} {text : List Char} :
    invalidChars (scanFrom p text) = [] ↔ ∀ c, .invalid c ∉ lexemesFrom p.lineStart text := by
  rw [← lexeme_scanFrom p text]
  simp only [invalidChars, List.filterMap_eq_nil_iff, List.mem_map, not_exists, not_and]
  refine ⟨?_, ?_⟩
  · intro h c s hs hc
    have := h s hs
    rw [hc] at this
    cases this
  · intro h s hs
    split
    · next c hc => exact absurd hc (h c s hs)
    · rfl

/-- The tokens of a line as they can be read: words, none of which opens a comment. -/
structure Spelled (tokens : List Token) : Prop where
  words : ∀ text, .word text ∈ tokens → IsWord text
  first : ∀ text, tokens.head? = some (.word text) → ¬ OpensComment text

theorem spelled_tokensOn {offset : Nat} {text : List Char} (h : '\n' ∉ text)
    (hv : invalidChars (scanFrom ⟨offset, 0, true⟩ text) = []) :
    Spelled ((tokensOn offset text).map Located.value) := by
  rw [value_tokensOn]
  refine ⟨?_, ?_⟩
  · intro word hw
    obtain ⟨l, hl, hk⟩ := List.mem_filterMap.mp hw
    have he : l = .token (.word word) := by
      unfold Lexeme.kept? at hk
      split at hk <;> simp_all
    exact isWord_of_mem_lexemes (he ▸ hl)
  · intro word hw
    have hinvalid := invalidChars_eq_nil.mp hv
    cases hl : lexemesFrom true text with
    | nil => simp [hl] at hw
    | cons l rest =>
      obtain ⟨hend, hword, hcomment⟩ := lexemesFrom_eq_cons h hl
      rw [hl] at hw
      cases l with
      | invalid c => exact absurd (hl ▸ List.mem_cons_self) (hinvalid c)
      | token t =>
        cases t with
        | lineEnd => exact absurd rfl hend
        | comment note =>
          rw [hcomment note rfl] at hw
          cases hw
        | word text =>
          obtain rfl : text = word := by simpa [Lexeme.kept?] using hw
          exact hword text rfl
        | _ => simp [Lexeme.kept?] at hw

theorem spelled_of_mem_layout {offset : Nat} {text : List Char}
    (hv : invalidChars (scanFrom ⟨offset, 0, true⟩ text) = []) :
    ∀ line ∈ layout offset (terminatedLines text), Spelled (line.tokens.map Located.value) := by
  have hspelled : ∀ {o : Nat} {t : List Char} {l : Line}, '\n' ∉ t → invalidChars (scanFrom ⟨o, 0, true⟩ t) = [] →
      Line.ofText? o t = some l → Spelled (l.tokens.map Located.value) := by
    intro o t l hno hv hl
    have := spelled_tokensOn hno hv
    unfold Line.ofText? at hl
    split at hl
    · cases hl
    · next first rest ht =>
      cases hl
      rwa [ht] at this
  induction text using Text.line_induction generalizing offset with
  | last line h =>
    cases line with
    | nil => simp [terminatedLines, layout]
    | cons c rest =>
      rw [terminatedLines_of_notMem h (List.cons_ne_nil _ _), layout, layout, List.append_nil]
      intro l hl
      exact hspelled h hv (Option.mem_toList.mp hl)
  | more line after h ih =>
    rw [scanFrom_append_lineEnd, invalidChars_append, List.append_eq_nil_iff] at hv
    rw [terminatedLines_append h, layout, ofText?_append_lineFeed offset h]
    intro l hl
    rcases List.mem_append.mp hl with hl | hl
    · exact hspelled h hv.1 (Option.mem_toList.mp hl)
    · refine ih ?_ l (byteLength_append line _ ▸ hl)
      exact hv.2

/-! ## Sections -/

theorem Grammar.Names.isWord {tokens : List (Located Token)} {names : List Ident} (h : Names tokens names)
    (hw : ∀ text, .word text ∈ tokens.map Located.value → IsWord text) : ∀ name ∈ names, IsWord name.value := by
  induction h with
  | one name place => simpa using hw name (by simp)
  | more name place comma _ ih =>
    intro n hn
    rcases List.mem_cons.mp hn with rfl | hn
    · exact hw _ (by simp)
    · exact ih (fun text ht => hw text (by simp [ht])) n hn

theorem Grammar.Groups.spelled {indent : Nat} {lines : List Line} {groups : List (Located StateGroup)}
    (h : Groups indent lines groups) (hl : ∀ line ∈ lines, Spelled (line.tokens.map Located.value)) :
    ∀ g ∈ groups, ¬ OpensComment g.value.state.value := by
  induction h with
  | nil => simp
  | @group header state place colon body rest ts groups _ ht _ _ ih =>
    intro g hg
    rcases List.mem_cons.mp hg with rfl | hg
    · exact (hl header List.mem_cons_self).first state (by simp [ht])
    · exact ih (fun line hline => hl line (List.mem_cons_of_mem _ (List.mem_append_right _ hline))) g hg

/-- The names of lists are words, and no header opens a comment. -/
structure SpelledSections (sections : List (Located Section)) : Prop where
  lists : ∀ s ∈ sections, ∀ label items, s.value = .list label items → ∀ name ∈ items.value, IsWord name.value
  headers : ∀ s ∈ sections, ∀ label groups, s.value = .transitions label groups →
    ∀ g ∈ groups, ¬ OpensComment g.value.state.value

theorem Grammar.Sections.spelled {lines : List Line} {sections : List (Located Section)} (h : Sections lines sections)
    (hl : ∀ line ∈ lines, Spelled (line.tokens.map Located.value)) : SpelledSections sections := by
  induction h with
  | nil => exact ⟨by simp, by simp⟩
  | @list line label place colon tokens names rest sections ht _ hn _ ih =>
    obtain ⟨hlists, hheaders⟩ := ih fun line hline => hl line (List.mem_cons_of_mem _ hline)
    have hwords := (hl line List.mem_cons_self).words
    refine ⟨?_, ?_⟩
    · intro s hs l items he
      rcases List.mem_cons.mp hs with rfl | hs
      · cases he
        cases hn with
        | none => simp
        | some hn => exact hn.isWord fun text hm => hwords text (by simp [ht, hm])
      · exact hlists s hs l items he
    · intro s hs l groups he
      rcases List.mem_cons.mp hs with rfl | hs
      · cases he
      · exact hheaders s hs l groups he
  | @transitions line place colon block rest groups sections _ _ _ hg _ ih =>
    obtain ⟨hlists, hheaders⟩ :=
      ih fun line hline => hl line (List.mem_cons_of_mem _ (List.mem_append_right _ hline))
    refine ⟨?_, ?_⟩
    · intro s hs l items he
      rcases List.mem_cons.mp hs with rfl | hs
      · cases he
      · exact hlists s hs l items he
    · intro s hs l gs he
      rcases List.mem_cons.mp hs with rfl | hs
      · cases he
        cases hg with
        | empty => simp
        | groups hg =>
          exact hg.spelled fun line hline => hl line (List.mem_cons_of_mem _ (List.mem_append_left _ hline))
      · exact hheaders s hs l gs he

/-! ## Outlines -/

/-- The names of an outline can be written down: they are words, and a header is no
    comment. -/
structure Outline.Spelled (o : Outline) : Prop where
  states : ∀ q ∈ o.states, IsWord q
  alphabet : ∀ l ∈ o.alphabet, IsWord l
  symbols : ∀ symbols ∈ o.stackAlphabet, ∀ s ∈ symbols, IsWord s
  headers : ∀ q ∈ o.headers, ¬ OpensComment q

theorem mem_listsUnder {label : String} {sections : List (Located Section)} {items : Located (List Ident)} :
    items ∈ listsUnder label sections ↔ ∃ s ∈ sections, ∃ l, s.value = .list l items ∧ l.value = label := by
  simp only [listsUnder, List.mem_filterMap]
  refine exists_congr fun s => and_congr_right fun _ => ?_
  cases s.value with
  | list l names =>
    simp only [Section.list.injEq]
    refine ⟨?_, ?_⟩
    · intro h
      split at h
      · next hl =>
        cases h
        exact ⟨l, ⟨rfl, rfl⟩, hl⟩
      · cases h
    · intro h
      obtain ⟨_, ⟨rfl, rfl⟩, hl⟩ := h
      rw [if_pos hl]
  | transitions l groups => simp

theorem mem_blocksOf {sections : List (Located Section)} {groups : List (Located StateGroup)} :
    groups ∈ blocksOf sections ↔ ∃ s ∈ sections, ∃ l, s.value = .transitions l groups := by
  simp only [blocksOf, List.mem_filterMap]
  refine exists_congr fun s => and_congr_right fun _ => ?_
  cases s.value <;> simp [Section.groups?]

theorem SpelledSections.outline {sections : List (Located Section)} (h : SpelledSections sections) :
    (Outline.ofSections sections).Spelled := by
  have hlists : ∀ label, ∀ items ∈ listsUnder label sections, ∀ n ∈ namesIn items.value, IsWord n := by
    intro label items hi n hn
    obtain ⟨s, hs, l, he, -⟩ := mem_listsUnder.mp hi
    obtain ⟨name, hname, rfl⟩ := List.mem_map.mp hn
    exact h.lists s hs l items he name hname
  have hnames : ∀ label, ∀ n ∈ namesIn (namesUnder label sections), IsWord n := by
    intro label n hn
    obtain ⟨name, hname, rfl⟩ := List.mem_map.mp hn
    obtain ⟨items, hi, hmem⟩ := List.mem_flatMap.mp hname
    exact hlists label items hi _ (List.mem_map_of_mem hmem)
  refine ⟨hnames "states", hnames "alphabet", ?_, ?_⟩
  · intro symbols hsymbols
    obtain ⟨items, hi, rfl⟩ := Option.map_eq_some_iff.mp hsymbols
    exact hlists "stack_alphabet" items (List.mem_of_mem_head? hi)
  · intro q hq
    obtain ⟨g, hg, rfl⟩ := List.mem_map.mp hq
    obtain ⟨groups, hgroups, hmem⟩ := List.mem_flatten.mp hg
    obtain ⟨s, hs, l, he⟩ := mem_blocksOf.mp hgroups
    exact h.headers s hs l groups he g hmem

/-- What was read without a finding can be written down again. -/
theorem spelled_of_read {source : String} {sections : List (Located Section)}
    (h : readDefinition source = ⟨sections, []⟩) : (Outline.ofSections sections).Spelled := by
  obtain ⟨hv, hs⟩ := readDefinition_eq.mp h
  exact (hs.spelled (spelled_of_mem_layout hv)).outline

end Pushdown
