/-
  Pushdown.Proofs.Token.Occurrence — the lexemes of a text, by what stands around them.

  `Reads` says which lexeme a part of a text is, from the text before and after it alone:
  a line end, a comment, punctuation, an arrow, a control character that is no blank, or a
  maximal run of the characters that are left. A scan finds all of these, each once and in
  their order, and nothing else (`eq_scan_iff`); what it leaves out are blanks.

  A scan stands at borders, which no lexeme crosses (`Border`). From a border on, what may
  be read is the first lexeme and what may be read from the border behind it
  (`occurs_append`), and so the scan meets the definition by induction (`mem_scanFrom`).
-/

import Mathlib.Data.List.DropRight
import Mathlib.Data.List.Sort
import Pushdown.Proofs.Line.Place
import Pushdown.Proofs.Token.Spelling

namespace Pushdown

open Text

/-! ## What stands at a place of a text -/

/-- What stands on its last line of a text. -/
def lastLine (text : List Char) : List Char := text.rtakeWhile (· != '\n')

/-- Nothing but blanks stands before this place on its line. -/
def StartsLine (before : List Char) : Prop := ∀ c ∈ lastLine before, isBlank c = true

/-- The first character on the last line of a text that is no blank is a `#`. -/
def InComment (text : List Char) : Prop := (lastLine text).find? (fun c => !isBlank c) = some '#'

/-- A character that belongs to no lexeme but a word, between its neighbours. -/
structure Plain (before : List Char) (c : Char) (after : List Char) : Prop where
  blank : isBlank c = false
  control : isControl c = false
  punctuation : c ∉ ['(', ')', '[', ']', ',', ':']
  shaft : ¬ (c = '-' ∧ after.head? = some '>')
  tip : ¬ (before.getLast? = some '-' ∧ c = '>')

/-- All characters of a part of a text are plain. -/
def PlainRun (before part after : List Char) : Prop :=
  ∀ left c right, part = left ++ c :: right → Plain (before ++ left) c (right ++ after)

/-- A run of plain characters that goes on to neither side. -/
structure MaximalRun (before part after : List Char) : Prop where
  plain : PlainRun before part after
  left : ∀ front c, before = front ++ [c] → ¬ Plain front c (part ++ after)
  right : ∀ c back, after = c :: back → ¬ Plain (before ++ part) c back

/-- A part of a text is a lexeme, given what stands before and after it. -/
inductive Reads (before : List Char) : List Char → List Char → Lexeme → Prop where
  | lineEnd (after : List Char) : Reads before ['\n'] after (.token .lineEnd)
  | comment {note after : List Char} (start : StartsLine before) (line : '\n' ∉ note)
      (stop : ∀ c ∈ after.head?, c = '\n') : Reads before ('#' :: note) after (.token (.comment (String.ofList note)))
  | punctuation {c : Char} {t : Token} (after : List Char) (outside : ¬ InComment (before ++ [c]))
      (punctuation : Token.punctuation? c = some t) : Reads before [c] after (.token t)
  | arrow (after : List Char) (outside : ¬ InComment (before ++ ['-'])) : Reads before ['-', '>'] after (.token .arrow)
  | invalid {c : Char} (after : List Char) (outside : ¬ InComment (before ++ [c])) (blank : isBlank c = false)
      (control : isControl c = true) : Reads before [c] after (.invalid c)
  | word {c : Char} {rest after : List Char} (outside : ¬ InComment (before ++ [c]))
      (maximal : MaximalRun before (c :: rest) after) :
      Reads before (c :: rest) after (.token (.word (String.ofList (c :: rest))))

/-- A lexeme is what a part of the text `before ++ text` reads as, past `before`, with the
    bytes and the column of that part. -/
def Scanned.Occurs (before text : List Char) (s : Scanned) : Prop :=
  ∃ skipped part after, text = skipped ++ part ++ after ∧ Reads (before ++ skipped) part after s.lexeme ∧
    s.span = ⟨byteLength (before ++ skipped), byteLength (before ++ skipped) + byteLength part⟩ ∧
    s.column = (lastLine (before ++ skipped)).length

/-- Lexemes leave out no characters of a text at a byte offset but blanks, and no line
    feed. -/
def Covers (offset : Nat) (text : List Char) (lexemes : List Scanned) : Prop :=
  ∀ before c after, text = before ++ c :: after → isBlank c = false ∨ c = '\n' →
    ∃ s ∈ lexemes, s.span.start ≤ offset + byteLength before ∧ offset + byteLength (before ++ [c]) ≤ s.span.stop

/-- Lexemes are those of a text. -/
structure Lexing (text : List Char) (lexemes : List Scanned) : Prop where
  /-- They are what the text holds, and all of it. -/
  occurs : ∀ s, s ∈ lexemes ↔ s.Occurs [] text
  /-- They stand in their order, and apart. -/
  ordered : lexemes.Pairwise fun s t => s.span.Before t.span
  /-- Each covers a part of the text that is not empty, a word its own characters. -/
  parts : ∀ s ∈ lexemes, s.lexeme.StandsAt s.span 0 text
  covers : Covers 0 text lexemes
  words : ∀ s ∈ lexemes, ∀ word, s.lexeme = .token (.word word) → Lexable word
  /-- Between two words there is something else. -/
  apart : ∀ s ∈ lexemes, ∀ t ∈ lexemes, ∀ word word', s.lexeme = .token (.word word) →
    t.lexeme = .token (.word word') → s.span.stop ≠ t.span.start

variable {before part after : List Char} {lexeme : Lexeme} {c : Char}

/-! ## The last line -/

theorem lastLine_lineFeed (before : List Char) : lastLine (before ++ ['\n']) = [] :=
  List.rtakeWhile_concat_neg _ _ _ (by simp)

theorem lastLine_append (h : '\n' ∉ part) (before : List Char) : lastLine (before ++ part) = lastLine before ++ part := by
  have hpart : ∀ c ∈ part.reverse, (c != '\n') = true := by
    intro c hc
    rw [bne_iff_ne]
    intro e
    exact h (e ▸ List.mem_reverse.mp hc)
  rw [lastLine, List.rtakeWhile, List.reverse_append, List.takeWhile_append_of_pos hpart, List.reverse_append,
    List.reverse_reverse]
  rfl

theorem startsLine_iff : StartsLine before ↔ (lastLine before).find? (fun c => !isBlank c) = none := by
  simp [StartsLine]

theorem startsLine_lineFeed (before : List Char) : StartsLine (before ++ ['\n']) := by
  simp [StartsLine, lastLine_lineFeed]

theorem not_inComment_lineFeed (before : List Char) : ¬ InComment (before ++ ['\n']) := by
  simp [InComment, lastLine_lineFeed]

section Blank

variable (hc : c ≠ '\n') (hb : isBlank c = true)
include hc hb

theorem startsLine_blank : StartsLine (before ++ [c]) ↔ StartsLine before := by
  have hno : '\n' ∉ [c] := by simpa using Ne.symm hc
  simp only [StartsLine, lastLine_append hno, List.forall_mem_append, List.forall_mem_singleton, hb, and_true]

theorem inComment_blank : InComment (before ++ [c]) ↔ InComment before := by
  have hno : '\n' ∉ [c] := by simpa using Ne.symm hc
  simp [InComment, lastLine_append hno, hb]

end Blank

section NotBlank

variable (hb : isBlank c = false) (hno : '\n' ∉ c :: part)
include hb hno

theorem not_startsLine_append (before : List Char) : ¬ StartsLine (before ++ c :: part) := by
  intro h
  have := h c (by simp [lastLine_append hno])
  rw [hb] at this
  cases this

/-- A character that is no blank opens a comment or leaves everything as it is. -/
theorem inComment_append : InComment (before ++ c :: part) ↔ InComment before ∨ StartsLine before ∧ c = '#' := by
  rw [InComment, lastLine_append hno, List.find?_append, List.find?_cons_of_pos (by simp [hb]), startsLine_iff, InComment]
  cases (lastLine before).find? fun c => !isBlank c <;> simp

end NotBlank

theorem splitLine_append_of_stop (h : '\n' ∉ part) (hstop : ∀ c ∈ after.head?, c = '\n') :
    splitLine (part ++ after) = (part, after) := by
  cases after with
  | nil => rw [List.append_nil, splitLine_of_notMem h]
  | cons c rest =>
    obtain rfl := hstop c rfl
    rw [splitLine_append_lineFeed, splitLine_of_notMem h, List.nil_append]

theorem splitLine_stop (text : List Char) : ∀ c ∈ (splitLine text).2.head?, c = '\n' := by
  intro c hc
  have := List.head?_dropWhile_not (· != '\n') text
  rw [show (text.dropWhile (· != '\n')).head? = some c from hc] at this
  simpa using this

/-! ## Plain characters -/

theorem plain_iff :
    Plain before c after ↔ endsWord (c :: after) = false ∧ ¬ (before.getLast? = some '-' ∧ c = '>') := by
  rw [endsWord_eq_false, punctuation?_eq_none]
  refine ⟨?_, ?_⟩
  · intro h
    exact ⟨⟨h.blank, h.control, h.punctuation, h.shaft⟩, h.tip⟩
  · intro h
    exact ⟨h.1.1, h.1.2.1, h.1.2.2.1, h.1.2.2.2, h.2⟩

theorem Plain.punctuation?_eq_none (h : Plain before c after) : Token.punctuation? c = none :=
  Pushdown.punctuation?_eq_none.mpr h.punctuation

theorem ne_lineFeed_of_not_blank (h : isBlank c = false) : c ≠ '\n' := by
  intro e
  subst e
  exact absurd h (by decide)

theorem plainRun_nil : PlainRun before [] after := by simp [PlainRun]

theorem plainRun_cons : PlainRun before (c :: part) after ↔ Plain before c (part ++ after) ∧ PlainRun (before ++ [c]) part after := by
  refine ⟨?_, ?_⟩
  · intro h
    refine ⟨by simpa using h [] c part rfl, ?_⟩
    intro left d right hpart
    simpa using h (c :: left) d right (by rw [hpart, List.cons_append])
  · intro h left d right hpart
    obtain ⟨hc, hrest⟩ := h
    cases left with
    | nil =>
      cases hpart
      simpa using hc
    | cons e left =>
      cases hpart
      simpa using hrest left d right rfl

theorem PlainRun.notMem_lineFeed (h : PlainRun before part after) : '\n' ∉ part := by
  intro hm
  obtain ⟨left, right, rfl⟩ := List.append_of_mem hm
  exact ne_lineFeed_of_not_blank (h left '\n' right rfl).blank rfl

/-- The tip of an arrow does not follow a plain character. -/
theorem Plain.no_tip (h : Plain before c after) : ¬ ((before ++ [c]).getLast? = some '-' ∧ after.head? = some '>') := by
  simpa using h.shaft

/-- A run of plain characters that ends at one that is not plain is split off. -/
theorem splitWord_of_plainRun (h : ¬ (before.getLast? = some '-' ∧ (part ++ after).head? = some '>'))
    (hrun : PlainRun before part after) (hstop : ∀ c back, after = c :: back → ¬ Plain (before ++ part) c back) :
    splitWord (part ++ after) = (part, after) := by
  induction part generalizing before with
  | nil =>
    cases after with
    | nil => rfl
    | cons c back =>
      have hends : endsWord (c :: back) = true := by
        by_contra hends
        apply hstop c back rfl
        rw [List.append_nil]
        exact plain_iff.mpr ⟨by simpa using hends, by simpa using h⟩
      rw [List.nil_append, splitWord, if_pos hends]
  | cons c rest ih =>
    obtain ⟨hc, hrest⟩ := plainRun_cons.mp hrun
    have hends : ¬ endsWord (c :: (rest ++ after)) = true := by simp [(plain_iff.mp hc).1]
    rw [List.cons_append, splitWord, if_neg hends, ih hc.no_tip hrest (by simpa using hstop)]

/-- What is split off is a run of plain characters that ends at one that is not. -/
theorem plainRun_splitWord (h : ¬ (before.getLast? = some '-' ∧ part.head? = some '>')) :
    PlainRun before (splitWord part).1 (splitWord part).2 ∧
      ∀ c back, (splitWord part).2 = c :: back → ¬ Plain (before ++ (splitWord part).1) c back := by
  induction part generalizing before with
  | nil => exact ⟨plainRun_nil, by simp [splitWord]⟩
  | cons c rest ih =>
    rw [splitWord]
    cases hends : endsWord (c :: rest) with
    | true =>
      refine ⟨plainRun_nil, ?_⟩
      intro d back hd hp
      cases hd
      cases (plain_iff.mp hp).1.symm.trans hends
    | false =>
      have hc : Plain before c rest := plain_iff.mpr ⟨hends, by simpa using h⟩
      obtain ⟨hrun, hstop⟩ := ih hc.no_tip
      rw [if_neg (by simp)]
      refine ⟨plainRun_cons.mpr ⟨?_, hrun⟩, by simpa using hstop⟩
      rwa [splitWord_append]

/-! ## Borders -/

/-- No lexeme goes on across this place. -/
structure Border (before after : List Char) : Prop where
  comment : InComment before → ∀ c ∈ after.head?, c = '\n'
  arrow : ¬ (before.getLast? = some '-' ∧ after.head? = some '>')
  word : ∀ front d c back, before = front ++ [d] → after = c :: back → ¬ (Plain front d after ∧ Plain before c back)

theorem border_nil (text : List Char) : Border [] text :=
  ⟨by simp [InComment, lastLine], by simp, by simp⟩

theorem Border.blank (h : Border before (c :: after)) (hc : c ≠ '\n') (hb : isBlank c = true) :
    Border (before ++ [c]) after := by
  refine ⟨?_, ?_, ?_⟩
  · intro hin
    exact absurd (h.comment ((inComment_blank hc hb).mp hin) c rfl) hc
  · intro hd
    obtain rfl : c = '-' := by simpa using hd.1
    exact absurd hb (by decide)
  · intro front d e back hbefore hafter hp
    obtain ⟨rfl, rfl⟩ : before = front ∧ c = d := by simpa using hbefore
    cases hb.symm.trans hp.1.blank

/-- Whether a part stands in a comment depends on its first character. -/
theorem not_inComment_append (h : ¬ InComment (before ++ [c])) (hb : isBlank c = false) (hno : '\n' ∉ c :: part) :
    ¬ InComment (before ++ c :: part) := by
  have hc : '\n' ∉ [c] := by simpa using (ne_lineFeed_of_not_blank hb).symm
  rwa [inComment_append hb hno, ← inComment_append hb hc]

theorem not_blank_of_punctuation? {t : Token} (h : Token.punctuation? c = some t) : isBlank c = false := by
  unfold Token.punctuation? at h
  split at h <;> first | rfl | cases h

theorem not_control_of_punctuation? {t : Token} (h : Token.punctuation? c = some t) : isControl c = false := by
  unfold Token.punctuation? at h
  split at h <;> first | rfl | cases h

theorem PlainRun.last (h : PlainRun before part after) {front : List Char} (hp : part = front ++ [c]) :
    Plain (before ++ front) c after := by
  simpa using h front c [] hp

/-- Behind a lexeme there is a border. -/
theorem Reads.border (h : Reads before part after lexeme) : Border (before ++ part) after := by
  cases h with
  | lineEnd =>
    refine ⟨fun hin => absurd hin (not_inComment_lineFeed before), by simp, ?_⟩
    intro front d e back hbefore _ hp
    obtain ⟨rfl, rfl⟩ : before = front ∧ '\n' = d := by simpa using hbefore
    exact ne_lineFeed_of_not_blank hp.1.blank rfl
  | comment start line stop =>
    refine ⟨fun _ => stop, ?_, ?_⟩
    · intro h
      exact absurd (stop '>' h.2) (by decide)
    · intro front d e back _ hafter hp
      exact ne_lineFeed_of_not_blank hp.2.blank (stop e (by rw [hafter]; rfl))
  | @punctuation c t _ outside punctuation =>
    refine ⟨fun hin => absurd hin outside, ?_, ?_⟩
    · intro h
      obtain rfl : c = '-' := by simpa using h.1
      cases punctuation
    · intro front d e back hbefore _ hp
      obtain ⟨rfl, rfl⟩ : before = front ∧ c = d := by simpa using hbefore
      cases hp.1.punctuation?_eq_none.symm.trans punctuation
  | arrow _ outside =>
    refine ⟨fun hin => absurd hin (not_inComment_append outside (by decide) (by decide)), by simp, ?_⟩
    intro front d e back hbefore _ hp
    rw [List.append_cons] at hbefore
    obtain ⟨rfl, hd⟩ := List.append_inj' hbefore rfl
    cases hd
    exact hp.1.tip ⟨by simp, rfl⟩
  | @invalid c _ outside blank control =>
    refine ⟨fun hin => absurd hin outside, ?_, ?_⟩
    · intro h
      obtain rfl : c = '-' := by simpa using h.1
      exact absurd control (by decide)
    · intro front d e back hbefore _ hp
      obtain ⟨rfl, rfl⟩ : before = front ∧ c = d := by simpa using hbefore
      cases hp.1.control.symm.trans control
  | @word c rest _ outside maximal =>
    have hplain := plainRun_cons.mp maximal.plain
    refine ⟨fun hin => absurd hin (not_inComment_append outside hplain.1.blank maximal.plain.notMem_lineFeed), ?_, ?_⟩
    · intro h
      obtain ⟨hlast, hhead⟩ := h
      obtain ⟨front, hfront⟩ := List.getLast?_eq_some_iff.mp (by simpa using hlast : (c :: rest).getLast? = some '-')
      exact (maximal.plain.last hfront).shaft ⟨rfl, hhead⟩
    · intro front d e back _ hafter hp
      exact maximal.right e back hafter hp.2

/-! ## One lexeme at a border -/

section FirstLexeme

variable {lineStart : Bool} {rest : List Char}

theorem firstLexeme_punctuation {t : Token} (h : Token.punctuation? c = some t) :
    firstLexeme lineStart c rest = (.token t, [c], rest) := by
  simp [firstLexeme, h]

theorem firstLexeme_arrow : firstLexeme lineStart '-' ('>' :: rest) = (.token .arrow, ['-', '>'], rest) := by
  simp [firstLexeme, Token.punctuation?]

theorem firstLexeme_invalid (h : isControl c = true) : firstLexeme lineStart c rest = (.invalid c, [c], rest) := by
  have hp : Token.punctuation? c = none := by
    cases hp : Token.punctuation? c with
    | none => rfl
    | some t => cases h.symm.trans (not_control_of_punctuation? hp)
  have hdash : c ≠ '-' := fun e => absurd (e ▸ h) (by decide)
  have hsign : c ≠ '#' := fun e => absurd (e ▸ h) (by decide)
  simp [firstLexeme, hp, hdash, hsign, h]

theorem firstLexeme_word (h : endsWord (c :: rest) = false) (hs : ¬ (c = '#' ∧ lineStart = true)) :
    firstLexeme lineStart c rest =
      (.token (.word (String.ofList (c :: (splitWord rest).1))), c :: (splitWord rest).1, (splitWord rest).2) := by
  obtain ⟨-, hcontrol, hp, harrow⟩ := endsWord_eq_false.mp h
  simp [firstLexeme, hp, harrow, hs, hcontrol]

/-- A character that is no blank begins exactly one kind of lexeme. -/
theorem first_cases (lineStart : Bool) (rest : List Char) (hb : isBlank c = false) :
    (∃ t, Token.punctuation? c = some t) ∨ (∃ tail, c = '-' ∧ rest = '>' :: tail) ∨ (c = '#' ∧ lineStart = true) ∨
      isControl c = true ∨ endsWord (c :: rest) = false ∧ ¬ (c = '#' ∧ lineStart = true) := by
  by_cases hs : c = '#' ∧ lineStart = true
  · exact .inr (.inr (.inl hs))
  by_cases harrow : c = '-' ∧ rest.head? = some '>'
  · obtain ⟨tail, htail⟩ := List.head?_eq_some_iff.mp harrow.2
    exact .inr (.inl ⟨tail, harrow.1, htail⟩)
  cases hp : Token.punctuation? c with
  | some t => exact .inl ⟨t, rfl⟩
  | none =>
    cases hcontrol : isControl c with
    | true => exact .inr (.inr (.inr (.inl rfl)))
    | false => exact .inr (.inr (.inr (.inr ⟨endsWord_eq_false.mpr ⟨hb, hcontrol, hp, harrow⟩, hs⟩)))

end FirstLexeme

/-- Where a scan stands behind some text. -/
structure Cursor.At (p : Cursor) (before : List Char) : Prop where
  offset : p.offset = byteLength before
  column : p.column = (lastLine before).length
  lineStart : p.lineStart = true ↔ StartsLine before

variable {p : Cursor} {rest : List Char}

/-- What may be read where a scan stands is what it takes for the first lexeme. -/
theorem Reads.firstLexeme_eq (hp : p.At before) (hc : c ≠ '\n') (htext : part ++ after = c :: rest)
    (h : Reads before part after lexeme) : firstLexeme p.lineStart c rest = (lexeme, part, after) := by
  cases h with
  | lineEnd =>
    cases htext
    exact absurd rfl hc
  | comment start line stop =>
    rw [List.cons_append] at htext
    obtain ⟨rfl, rfl⟩ := List.cons.inj htext
    rw [hp.lineStart.mpr start, firstLexeme_comment, splitLine_append_of_stop line stop]
  | punctuation _ outside punctuation =>
    obtain ⟨rfl, rfl⟩ := List.cons.inj htext
    exact firstLexeme_punctuation punctuation
  | arrow _ outside =>
    obtain ⟨rfl, rfl⟩ := List.cons.inj htext
    exact firstLexeme_arrow
  | invalid _ outside blank control =>
    obtain ⟨rfl, rfl⟩ := List.cons.inj htext
    exact firstLexeme_invalid control
  | @word d word _ outside maximal =>
    rw [List.cons_append] at htext
    obtain ⟨rfl, rfl⟩ := List.cons.inj htext
    obtain ⟨hd, hrun⟩ := plainRun_cons.mp maximal.plain
    have hs : ¬ (d = '#' ∧ p.lineStart = true) := by
      intro h
      apply outside
      rw [inComment_append hd.blank (by simpa using Ne.symm hc)]
      exact .inr ⟨hp.lineStart.mp h.2, h.1⟩
    have hsplit : splitWord (word ++ after) = (word, after) :=
      splitWord_of_plainRun hd.no_tip hrun (by simpa using maximal.right)
    rw [firstLexeme_word (plain_iff.mp hd).1 hs, hsplit]

/-- What a scan takes for the first lexeme at a border may be read there. -/
theorem reads_firstLexeme (hp : p.At before) (hborder : Border before (c :: rest)) (hc : c ≠ '\n')
    (hb : isBlank c = false) :
    Reads before (firstLexeme p.lineStart c rest).2.1 (firstLexeme p.lineStart c rest).2.2
      (firstLexeme p.lineStart c rest).1 := by
  have houtside (hs : ¬ (c = '#' ∧ p.lineStart = true)) : ¬ InComment (before ++ [c]) := by
    intro hin
    rw [inComment_append hb (by simpa using Ne.symm hc), ← hp.lineStart] at hin
    rcases hin with hin | hin
    · exact hc (hborder.comment hin c rfl)
    · exact hs hin.symm
  rcases first_cases p.lineStart rest hb with ⟨t, ht⟩ | ⟨tail, rfl, rfl⟩ | ⟨rfl, hs⟩ | hcontrol | ⟨he, hs⟩
  · rw [firstLexeme_punctuation ht]
    refine .punctuation rest (houtside ?_) ht
    rintro ⟨rfl, -⟩
    cases ht
  · rw [firstLexeme_arrow]
    exact .arrow tail (houtside (by simp))
  · rw [hs, firstLexeme_comment]
    exact .comment (hp.lineStart.mp hs) (splitLine_notMem_lineFeed rest) (splitLine_stop rest)
  · rw [firstLexeme_invalid hcontrol]
    refine .invalid rest (houtside ?_) hb hcontrol
    rintro ⟨rfl, -⟩
    exact absurd hcontrol (by decide)
  · rw [firstLexeme_word he hs]
    have hplain : Plain before c rest := plain_iff.mpr ⟨he, by simpa using hborder.arrow⟩
    have hrest : (splitWord rest).1 ++ (splitWord rest).2 = rest := splitWord_append rest
    obtain ⟨hrun, hright⟩ := plainRun_splitWord hplain.no_tip
    refine .word (houtside hs) ⟨plainRun_cons.mpr ⟨by rwa [hrest], hrun⟩, ?_, by simpa using hright⟩
    intro front d hbefore hd
    rw [List.cons_append, hrest] at hd
    exact hborder.word front d c rest hbefore rfl ⟨hd, hplain⟩

/-! ## What begins inside a lexeme -/

theorem Reads.ne_nil (h : Reads before part after lexeme) : part ≠ [] := by
  cases h <;> exact List.cons_ne_nil _ _

/-- A part that begins with a plain character is a word, which no plain character precedes,
    or a comment. -/
theorem Reads.of_plain {tail : List Char} (h : Reads before (c :: tail) after lexeme) (hc : Plain before c (tail ++ after)) :
    StartsLine before ∨ ∀ front d, before = front ++ [d] → ¬ Plain front d (c :: tail ++ after) := by
  cases h with
  | lineEnd => exact absurd rfl (ne_lineFeed_of_not_blank hc.blank)
  | comment start _ _ => exact .inl start
  | punctuation _ _ punctuation => cases hc.punctuation?_eq_none.symm.trans punctuation
  | arrow => exact absurd ⟨rfl, rfl⟩ hc.shaft
  | invalid _ _ _ control => cases hc.control.symm.trans control
  | word _ maximal => exact .inr maximal.left

theorem Reads.not_blank {tail : List Char} (h : Reads before (c :: tail) after lexeme) (hc : c ≠ '\n')
    (hb : isBlank c = true) : False := by
  cases h with
  | lineEnd => exact hc rfl
  | comment => exact absurd hb (by decide)
  | punctuation _ _ punctuation => cases hb.symm.trans (not_blank_of_punctuation? punctuation)
  | arrow => exact absurd hb (by decide)
  | invalid _ _ blank _ => cases hb.symm.trans blank
  | word _ maximal => cases hb.symm.trans (plainRun_cons.mp maximal.plain).1.blank

/-- In a comment nothing begins but the end of the line. -/
theorem Reads.of_inComment {tail : List Char} (h : Reads before (c :: tail) after lexeme) (hin : InComment (before ++ [c]))
    (hs : ¬ StartsLine before) : False := by
  cases h with
  | lineEnd => exact not_inComment_lineFeed before hin
  | comment start _ _ => exact hs start
  | punctuation _ outside _ => exact outside hin
  | arrow _ outside => exact outside hin
  | invalid _ outside _ _ => exact outside hin
  | word outside _ => exact outside hin

/-- The tip of an arrow begins nothing. -/
theorem Reads.not_tip {tail : List Char} (h : Reads before ('>' :: tail) after lexeme) : before.getLast? ≠ some '-' := by
  cases h with
  | punctuation _ _ punctuation => cases punctuation
  | invalid _ _ _ control => exact absurd control (by decide)
  | word _ maximal =>
    intro hlast
    exact (plainRun_cons.mp maximal.plain).1.tip ⟨hlast, rfl⟩

/-- Inside a run of plain characters no lexeme begins. -/
theorem Reads.not_inside_run {first : Char} {inner tail after' : List Char}
    (h : Reads (before ++ first :: inner) (c :: tail) after lexeme)
    (hrun : PlainRun before (first :: inner ++ c :: part) after') (htext : tail ++ after = part ++ after') : False := by
  have hc : Plain (before ++ first :: inner) c (part ++ after') := hrun (first :: inner) c part rfl
  have hno := hrun.notMem_lineFeed
  simp only [List.cons_append, List.mem_append, List.mem_cons, not_or] at hno
  rcases h.of_plain (htext ▸ hc) with hstart | hleft
  · have hblank := (plainRun_cons.mp hrun).1.blank
    exact not_startsLine_append hblank (by simp [hno]) before hstart
  · -- the character before it is plain as well
    obtain ⟨front, d, hfront⟩ : ∃ front d, first :: inner = front ++ [d] :=
      ⟨_, _, (List.dropLast_concat_getLast (List.cons_ne_nil first inner)).symm⟩
    refine hleft (before ++ front) d (by rw [hfront, List.append_assoc]) ?_
    rw [List.cons_append, htext]
    exact hrun front d (c :: part) (by rw [hfront, List.append_assoc]; rfl)

/-- No lexeme begins inside another. -/
theorem Reads.not_inside (h : Reads before part after lexeme) {skipped tail part' after' : List Char} {lexeme' : Lexeme}
    (hpart : part = skipped ++ c :: tail) (hne : skipped ≠ []) (htext : c :: tail ++ after = part' ++ after')
    (h' : Reads (before ++ skipped) part' after' lexeme') : False := by
  obtain ⟨d, tail', rfl⟩ := List.exists_cons_of_ne_nil h'.ne_nil
  rw [List.cons_append, List.cons_append] at htext
  obtain ⟨rfl, htail⟩ := List.cons.inj htext
  obtain ⟨head, inner, rfl⟩ := List.exists_cons_of_ne_nil hne
  rw [List.cons_append] at hpart
  cases h with
  | lineEnd => simp at hpart
  | punctuation => simp at hpart
  | invalid => simp at hpart
  | comment start line stop =>
    obtain ⟨rfl, rfl⟩ := List.cons.inj hpart
    simp only [List.mem_append, List.mem_cons, not_or] at line
    refine h'.of_inComment ?_ (not_startsLine_append (by decide) (by simp [line]) before)
    rw [List.append_assoc, List.cons_append]
    exact (inComment_append (by decide) (by simp [line])).mpr (.inr ⟨start, rfl⟩)
  | arrow =>
    obtain ⟨rfl, hinner⟩ := List.cons.inj hpart
    obtain ⟨rfl, rfl, rfl⟩ : inner = [] ∧ c = '>' ∧ tail = [] := by
      cases inner with
      | nil => exact ⟨rfl, (List.cons.inj hinner).1.symm, (List.cons.inj hinner).2.symm⟩
      | cons _ _ => simp at hinner
    exact h'.not_tip (by simp)
  | word _ maximal =>
    obtain ⟨rfl, rfl⟩ := List.cons.inj hpart
    exact h'.not_inside_run maximal.plain htail.symm

theorem Reads.of_lineFeed {tail : List Char} (h : Reads before ('\n' :: tail) after lexeme) :
    lexeme = .token .lineEnd ∧ tail = [] := by
  cases h with
  | lineEnd => exact ⟨rfl, rfl⟩
  | punctuation _ _ punctuation => cases punctuation
  | invalid _ _ blank _ => exact absurd blank (by decide)
  | word _ maximal => exact absurd rfl (ne_lineFeed_of_not_blank (plainRun_cons.mp maximal.plain).1.blank)

/-- At one place at most one lexeme may be read. -/
theorem Reads.unique (hp : p.At before) {part' after' : List Char} {lexeme' : Lexeme} (h : Reads before part after lexeme)
    (h' : Reads before part' after' lexeme') (htext : part ++ after = part' ++ after') :
    lexeme = lexeme' ∧ part = part' ∧ after = after' := by
  obtain ⟨c, tail, rfl⟩ := List.exists_cons_of_ne_nil h.ne_nil
  obtain ⟨d, tail', rfl⟩ := List.exists_cons_of_ne_nil h'.ne_nil
  obtain ⟨rfl, htail⟩ := List.cons.inj htext
  by_cases hc : c = '\n'
  · subst hc
    obtain ⟨rfl, rfl⟩ := h.of_lineFeed
    obtain ⟨rfl, rfl⟩ := h'.of_lineFeed
    exact ⟨rfl, rfl, htail⟩
  · have hfirst := (h.firstLexeme_eq hp hc rfl).symm.trans (h'.firstLexeme_eq hp hc htext.symm)
    simpa using hfirst

/-- What occurs past a part occurs from it on. -/
theorem Scanned.Occurs.past {s : Scanned} (h : s.Occurs (before ++ part) after) : s.Occurs before (part ++ after) := by
  obtain ⟨skipped, part', after', rfl, hreads, hspan, hcolumn⟩ := h
  refine ⟨part ++ skipped, part', after', by simp only [List.append_assoc], ?_⟩
  rw [← List.append_assoc]
  exact ⟨hreads, hspan, hcolumn⟩

/-- A lexeme that may be read where a scan stands occurs there. -/
theorem occurs_scanned (hp : p.At before) (h : Reads before part after lexeme) :
    (p.scanned part lexeme).Occurs before (part ++ after) := by
  refine ⟨[], part, after, rfl, ?_⟩
  rw [List.append_nil, ← hp.offset, ← hp.column]
  exact ⟨h, rfl, rfl⟩

/-- From a border on there is the lexeme that may be read there, and those past it. -/
theorem occurs_append (hp : p.At before) (h : Reads before part after lexeme) (s : Scanned) :
    s.Occurs before (part ++ after) ↔ s = p.scanned part lexeme ∨ s.Occurs (before ++ part) after := by
  refine ⟨?_, ?_⟩
  · intro hs
    obtain ⟨skipped, part', after', htext, hreads, hspan, hcolumn⟩ := hs
    by_cases hne : skipped = []
    · subst hne
      rw [List.append_nil] at hreads hspan hcolumn
      obtain ⟨hlexeme, rfl, -⟩ := h.unique hp hreads htext
      obtain ⟨lexeme', span, column⟩ := s
      simp only at hlexeme hspan hcolumn
      subst hlexeme hspan hcolumn
      exact .inl (by rw [Cursor.scanned, hp.offset, hp.column])
    · right
      rw [List.append_assoc] at htext
      rcases List.append_eq_append_iff.mp htext with ⟨skipped', rfl, hafter⟩ | ⟨inner, hpart, hinner⟩
      · rw [← List.append_assoc] at hreads hspan hcolumn
        exact ⟨skipped', part', after', by rw [hafter, List.append_assoc], hreads, hspan, hcolumn⟩
      · cases inner with
        | nil =>
          rw [List.append_nil] at hpart
          subst hpart
          exact ⟨[], part', after', by simpa using hinner.symm, by simpa using hreads, by simpa using hspan,
            by simpa using hcolumn⟩
        | cons d tail => exact absurd hreads fun h' => h.not_inside hpart hne hinner.symm h'
  · intro hs
    rcases hs with rfl | hs
    · exact occurs_scanned hp h
    · exact hs.past

/-- A blank that ends no line is no part of a lexeme that may be read from it on. -/
theorem occurs_blank (hc : c ≠ '\n') (hb : isBlank c = true) (s : Scanned) :
    s.Occurs before (c :: rest) ↔ s.Occurs (before ++ [c]) rest := by
  refine ⟨?_, Scanned.Occurs.past⟩
  intro hs
  obtain ⟨skipped, part, after, htext, hreads, hspan, hcolumn⟩ := hs
  cases skipped with
  | nil =>
    obtain ⟨d, tail, rfl⟩ := List.exists_cons_of_ne_nil hreads.ne_nil
    obtain ⟨rfl, -⟩ := List.cons.inj htext
    exact absurd hreads fun h => h.not_blank hc hb
  | cons d skipped =>
    obtain ⟨rfl, rfl⟩ := List.cons.inj htext
    rw [List.append_cons] at hreads hspan hcolumn
    exact ⟨skipped, part, after, rfl, hreads, hspan, hcolumn⟩

/-! ## The scan -/

theorem at_origin : Cursor.origin.At [] := ⟨rfl, rfl, by simp [StartsLine, lastLine, Cursor.origin]⟩

theorem Cursor.At.newLine (h : p.At before) : p.newLine.At (before ++ ['\n']) := by
  refine ⟨?_, ?_, ?_⟩
  · simp [Cursor.newLine, h.offset, show '\n'.utf8Size = 1 by decide]
  · simp [Cursor.newLine, lastLine_lineFeed]
  · exact iff_of_true rfl (startsLine_lineFeed before)

theorem Cursor.At.skip (h : p.At before) (hc : c ≠ '\n') (hb : isBlank c = true) : (p.skip c).At (before ++ [c]) := by
  have hno : '\n' ∉ [c] := by simpa using Ne.symm hc
  refine ⟨?_, ?_, ?_⟩
  · simp [Cursor.skip, h.offset]
  · simp [Cursor.skip, h.column, lastLine_append hno]
  · rw [startsLine_blank hc hb, ← h.lineStart]
    rfl

theorem Cursor.At.pass (h : p.At before) (hb : isBlank c = false) (hno : '\n' ∉ c :: part) :
    (p.pass (c :: part)).At (before ++ c :: part) := by
  refine ⟨?_, ?_, ?_⟩
  · rw [byteLength_append, ← h.offset]
    rfl
  · rw [lastLine_append hno, List.length_append, ← h.column]
    rfl
  · exact iff_of_false (by simp [Cursor.pass]) (not_startsLine_append hb hno before)

/-- From a border on, a scan finds what occurs there. -/
theorem mem_scanFrom (hp : p.At before) (hborder : Border before rest) (s : Scanned) :
    s ∈ scanFrom p rest ↔ s.Occurs before rest := by
  fun_induction scanFrom p rest generalizing before with
  | case1 p =>
    refine iff_of_false (by simp) ?_
    intro hs
    obtain ⟨skipped, part, after, htext, hreads, -⟩ := hs
    exact hreads.ne_nil (List.append_eq_nil_iff.mp (List.append_eq_nil_iff.mp htext.symm).1).2
  | case2 p rest ih =>
    have hreads : Reads before ['\n'] rest (.token .lineEnd) := .lineEnd rest
    rw [List.mem_cons, ih hp.newLine hreads.border, ← occurs_append hp hreads]
    rfl
  | case3 p c rest hc hb ih => rw [ih (hp.skip hc hb) (hborder.blank hc hb), occurs_blank hc hb]
  | case4 p c rest hc hb first =>
    rename_i ih
    have hb : isBlank c = false := by simpa using hb
    have hreads : Reads before first.2.1 first.2.2 first.1 := reads_firstLexeme hp hborder hc hb
    have htext : first.2.1 ++ first.2.2 = c :: rest := firstLexeme_append p.lineStart c rest
    have hpass : (p.pass first.2.1).At (before ++ first.2.1) := by
      have hno : '\n' ∉ first.2.1 := firstLexeme_notMem_lineFeed hc rest
      obtain ⟨d, tail, hpart⟩ := List.exists_cons_of_ne_nil hreads.ne_nil
      rw [hpart] at htext hno ⊢
      obtain ⟨rfl, -⟩ := List.cons.inj htext
      exact hp.pass hb hno
    rw [List.mem_cons, ih hpass hreads.border, ← htext, occurs_append hp hreads]

/-- A lexeme at the start of a text, and those that leave out nothing past it. -/
theorem Covers.cons {offset : Nat} {lexemes : List Scanned} {s : Scanned}
    (hs : s.span = ⟨offset, offset + byteLength part⟩) (h : Covers (offset + byteLength part) after lexemes) :
    Covers offset (part ++ after) (s :: lexemes) := by
  intro before c rest htext hc
  rcases List.append_eq_append_iff.mp htext with ⟨skipped, rfl, hafter⟩ | ⟨inner, rfl, hinner⟩
  · obtain ⟨t, ht, hstart, hstop⟩ := h skipped c rest hafter hc
    refine ⟨t, List.mem_cons_of_mem _ ht, ?_, ?_⟩
    · rwa [byteLength_append, ← Nat.add_assoc]
    · rwa [List.append_assoc, byteLength_append, ← Nat.add_assoc]
  · cases inner with
    | nil =>
      rw [List.append_nil] at h
      obtain ⟨t, ht, hstart, hstop⟩ := h [] c rest hinner.symm hc
      refine ⟨t, List.mem_cons_of_mem _ ht, hstart, ?_⟩
      rwa [byteLength_append, ← Nat.add_assoc]
    | cons d inner =>
      obtain ⟨rfl, -⟩ := List.cons.inj hinner
      refine ⟨s, List.mem_cons_self, ?_, ?_⟩
      · simp only [hs]
        omega
      · simp only [hs, byteLength_append, byteLength_cons, byteLength_nil]
        omega

theorem covers_scanFrom (p : Cursor) (text : List Char) : Covers p.offset text (scanFrom p text) := by
  fun_induction scanFrom p text with
  | case1 p =>
    intro before c after htext
    cases (List.append_eq_nil_iff.mp htext.symm).2
  | case2 p rest ih =>
    show Covers p.offset (['\n'] ++ rest) _
    exact Covers.cons rfl ih
  | case3 p d rest hd hb ih =>
    intro before c after htext hc
    cases before with
    | nil =>
      obtain ⟨rfl, -⟩ := List.cons.inj htext
      rcases hc with hc | hc
      · cases hc.symm.trans hb
      · exact absurd hc hd
    | cons e before =>
      obtain ⟨rfl, hrest⟩ := List.cons.inj htext
      obtain ⟨s, hs, hstart, hstop⟩ := ih before c after hrest hc
      simp only [Cursor.skip] at hstart hstop
      refine ⟨s, hs, ?_, ?_⟩
      · rw [byteLength_cons]
        omega
      · rw [List.cons_append, byteLength_cons]
        omega
  | case4 p c rest hc hb first =>
    rename_i ih
    rw [← firstLexeme_append p.lineStart c rest]
    exact Covers.cons rfl ih

/-- Two words do not touch. -/
theorem Reads.not_word {part' after' : List Char} {word word' : String} (h : Reads before part after (.token (.word word)))
    (h' : Reads (before ++ part) part' after' (.token (.word word'))) : after ≠ part' ++ after' := by
  intro htext
  cases h with
  | punctuation _ _ punctuation =>
    unfold Token.punctuation? at punctuation
    split at punctuation <;> cases punctuation
  | @word c rest _ _ maximal =>
    obtain ⟨front, d, hfront⟩ : ∃ front d, c :: rest = front ++ [d] :=
      ⟨_, _, (List.dropLast_concat_getLast (List.cons_ne_nil c rest)).symm⟩
    have hd := maximal.plain.last hfront
    cases h' with
    | punctuation _ _ punctuation =>
      unfold Token.punctuation? at punctuation
      split at punctuation <;> cases punctuation
    | word _ maximal' => exact maximal'.left (before ++ front) d (by rw [hfront, List.append_assoc]) (htext ▸ hd)

theorem Lexeme.StandsAt.start_lt_stop {s : Span} {offset : Nat} {text : List Char} (h : lexeme.StandsAt s offset text) :
    s.start < s.stop := by
  obtain ⟨part, hne, ⟨before, after, -, rfl⟩, -⟩ := h
  have : byteLength part ≠ 0 := fun h => hne (byteLength_eq_zero.mp h)
  show offset + byteLength before < offset + byteLength before + byteLength part
  omega

theorem eq_of_byteLength_eq {a b x y : List Char} (htext : a ++ x = b ++ y) (h : byteLength a = byteLength b) :
    a = b ∧ x = y := by
  have htake : some a = some b := by rw [← takeBytes?_append a x, ← takeBytes?_append b y, htext, h]
  obtain rfl := Option.some.inj htake
  exact ⟨rfl, List.append_cancel_left htext⟩

theorem lexing_scan (source : String) : Lexing source.toList (scan source) := by
  have hoccurs := mem_scanFrom at_origin (border_nil source.toList)
  refine ⟨hoccurs, scanFrom_pairwise _ _, standsAt_of_mem_scanFrom, covers_scanFrom _ _, ?_, ?_⟩
  · intro s hs word hword
    rw [← isWord_iff_lexable]
    have hmem : s.lexeme ∈ (scanFrom .origin source.toList).map Scanned.lexeme := List.mem_map_of_mem hs
    rw [lexeme_scanFrom, hword] at hmem
    exact isWord_of_mem_lexemes hmem
  · intro s hs t ht word word' hword hword' htouch
    obtain ⟨before, part, after, htext, hreads, hspan, -⟩ := (hoccurs s).mp hs
    obtain ⟨before', part', after', htext', hreads', hspan', -⟩ := (hoccurs t).mp ht
    rw [hspan, hspan', ← byteLength_append] at htouch
    rw [hword] at hreads
    rw [hword'] at hreads'
    obtain ⟨rfl, hafter⟩ := eq_of_byteLength_eq (htext.symm.trans (htext'.trans (List.append_assoc ..))) htouch
    exact hreads.not_word hreads' hafter

/-- The lexemes that stand where the text says are in one order only. -/
theorem Lexing.starts {text : List Char} {lexemes : List Scanned} (h : Lexing text lexemes) :
    lexemes.Pairwise fun s t => s.span.start < t.span.start := by
  refine h.ordered.imp_of_mem ?_
  intro s t hs _ hbefore
  exact Nat.lt_of_lt_of_le (h.parts s hs).start_lt_stop hbefore

/-- A scan gives the lexemes of its text, and nothing else would be these. -/
theorem eq_scan_iff {source : String} {lexemes : List Scanned} : lexemes = scan source ↔ Lexing source.toList lexemes := by
  refine ⟨?_, ?_⟩
  · intro h
    exact h ▸ lexing_scan source
  · intro h
    have hscan := lexing_scan source
    have hirrefl : Std.Irrefl fun s t : Scanned => s.span.start < t.span.start := ⟨fun s => Nat.lt_irrefl _⟩
    have hantisymm : Std.Antisymm fun s t : Scanned => s.span.start < t.span.start :=
      ⟨fun s t hst hts => absurd hts (Nat.lt_asymm hst)⟩
    exact h.starts.eq_of_mem_iff hscan.starts fun s => (h.occurs s).trans (hscan.occurs s).symm

end Pushdown
