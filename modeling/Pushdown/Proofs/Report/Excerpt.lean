/-
  Pushdown.Proofs.Report.Excerpt — an excerpt marks exactly its place.

  `SourceLine.ofText` are the lines of a text, each with its number and the offset that it
  begins at. An entry about a part of the text shows one pair of lines for each line that
  the part touches, but for the last one if nothing stands on it (`render_of_place`). The
  touched lines are numbered from that of the start of the part to that of its end
  (`number_touched`), so no number is wider than the last. Under each character shown is
  one mark, a tilde exactly where its offset is in the part (`marks_mapIdx`).
-/

import Mathlib.Data.List.DropRight
import Pushdown.Proofs.Text.Place
import Pushdown.Report.Excerpt

namespace Pushdown

open Text

/-- A line of a text, without its line feed: which one it is and where it begins. -/
structure SourceLine where
  number : Nat
  offset : Nat
  text : List Char
  deriving DecidableEq, Repr

namespace SourceLine

/-- Lines with a line feed between them, the first one at an offset. -/
def placed (number offset : Nat) : List (List Char) → List SourceLine
  | [] => []
  | text :: rest => ⟨number, offset, text⟩ :: placed (number + 1) (offset + byteLength text + 1) rest

/-- The lines of a text that stands at an offset itself. -/
def linesFrom (number offset : Nat) (text : List Char) : List SourceLine :=
  placed number offset (text.splitOn '\n')

/-- The lines of a text: what stands before, between and after its line feeds. -/
def ofText (source : List Char) : List SourceLine := linesFrom 1 0 source

def stop (l : SourceLine) : Nat := l.offset + byteLength l.text

/-- A place begins on a line, ends on it or reaches across it. -/
def Touched (s : Span) (l : SourceLine) : Prop := l.offset ≤ s.stop ∧ s.start ≤ l.stop

instance (s : Span) : DecidablePred (Touched s) := fun _ => inferInstanceAs (Decidable (_ ∧ _))

/-- Nothing stands on a line, and a place ends there. -/
def EndsBare (s : Span) (l : SourceLine) : Prop := s.stop ≤ l.stop ∧ l.text = []

instance (s : Span) : DecidablePred (EndsBare s) := fun _ => inferInstanceAs (Decidable (_ ∧ _))

/-- A pair is drawn for a touched line, unless the place ends there and nothing stands on it. -/
def Drawn (s : Span) (l : SourceLine) : Prop := l.Touched s ∧ ¬ l.EndsBare s

instance (s : Span) : DecidablePred (Drawn s) := fun _ => inferInstanceAs (Decidable (_ ∧ _))

/-- What is shown of a line: all but the carriage returns at its end. -/
def shown (l : SourceLine) : List Char := l.text.rdropWhile (· == '\r')

/-- The offset of character `i` of those shown. -/
def offsetOf (l : SourceLine) (i : Nat) : Nat := l.offset + byteLength (l.shown.take i)

/-- The mark under character `i` of those shown. -/
def mark (s : Span) (l : SourceLine) (i : Nat) (c : Char) : Char :=
  if s.start ≤ l.offsetOf i ∧ l.offsetOf i < s.stop then '~' else if c = '\t' then '\t' else ' '

def marks (s : Span) (l : SourceLine) : List Char := l.shown.mapIdx (l.mark s)

/-- What stands before the text that is shown: its number, right aligned. -/
def gutter (width : Nat) (l : SourceLine) : String :=
  Ansi.bold ++ Ansi.cyan ++ blanks (width - (Nat.repr l.number).length) ++ Nat.repr l.number ++ " | " ++ Ansi.reset

/-- What stands before the marks. -/
def markGutter (width : Nat) : String := Ansi.bold ++ Ansi.cyan ++ blanks (width + 3)

/-- A line as it is shown and, below it, its marks. -/
def pair (width : Nat) (s : Span) (l : SourceLine) : String :=
  l.gutter width ++ String.ofList l.shown ++ "\n" ++
  markGutter width ++ String.ofList (l.marks s) ++ Ansi.reset ++ "\n"

/-! ## Lines one by one -/

section Lines

variable {number offset : Nat} {line text before after : List Char}

theorem linesFrom_of_notMem (h : '\n' ∉ line) : linesFrom number offset line = [⟨number, offset, line⟩] := by
  rw [linesFrom, List.splitOn_eq_singleton h]
  rfl

theorem linesFrom_cons (h : '\n' ∉ line) (after : List Char) :
    linesFrom number offset (line ++ '\n' :: after) =
      ⟨number, offset, line⟩ :: linesFrom (number + 1) (offset + byteLength line + 1) after := by
  rw [linesFrom, List.splitOn_append_cons_self, List.splitOn_eq_singleton h, List.singleton_append]
  rfl

theorem byteLength_append_lineFeed (line after : List Char) :
    byteLength (line ++ '\n' :: after) = byteLength line + 1 + byteLength after := by
  have hsize : '\n'.utf8Size = 1 := by decide
  rw [byteLength_append, byteLength_cons, hsize, Nat.add_assoc]

theorem linesFrom_append (before after : List Char) :
    linesFrom number offset (before ++ '\n' :: after) =
      linesFrom number offset before ++
        linesFrom (number + before.count '\n' + 1) (offset + byteLength before + 1) after := by
  induction before using Text.line_induction generalizing number offset with
  | last line h => rw [linesFrom_cons h, linesFrom_of_notMem h, List.count_eq_zero_of_not_mem h]; rfl
  | more line rest h ih =>
    have hnumber : number + 1 + rest.count '\n' + 1 = number + (line ++ '\n' :: rest).count '\n' + 1 := by
      rw [List.count_append, List.count_cons_self, List.count_eq_zero_of_not_mem h]
      omega
    have hoffset : offset + byteLength line + 1 + byteLength rest + 1 =
        offset + byteLength (line ++ '\n' :: rest) + 1 := by
      rw [byteLength_append_lineFeed]
      omega
    rw [List.append_assoc, List.cons_append, linesFrom_cons h, ih, linesFrom_cons h, hnumber, hoffset,
      List.cons_append]

theorem map_number_linesFrom (text : List Char) :
    (linesFrom number offset text).map SourceLine.number = List.range' number (text.count '\n' + 1) := by
  induction text using Text.line_induction generalizing number offset with
  | last line h =>
    rw [linesFrom_of_notMem h, List.count_eq_zero_of_not_mem h]
    rfl
  | more line rest h ih =>
    rw [linesFrom_cons h, List.map_cons, ih, List.count_append, List.count_cons_self, List.count_eq_zero_of_not_mem h,
      Nat.zero_add]
    rfl

/-- The lines of a text lie in it. -/
theorem bounds_of_mem {l : SourceLine} (hl : l ∈ linesFrom number offset text) :
    offset ≤ l.offset ∧ l.stop ≤ offset + byteLength text := by
  induction text using Text.line_induction generalizing number offset with
  | last line h =>
    rw [linesFrom_of_notMem h, List.mem_singleton] at hl
    subst hl
    exact ⟨Nat.le_refl _, Nat.le_refl _⟩
  | more line rest h ih =>
    have hlength := byteLength_append_lineFeed line rest
    rw [linesFrom_cons h] at hl
    rcases List.mem_cons.mp hl with rfl | hl
    · simp only [stop]
      omega
    · have hrest := ih hl
      omega

/-- Every line reaches as far as the text that the first one begins with. -/
theorem le_stop_of_mem {l : SourceLine} (h : '\n' ∉ before) (hl : l ∈ linesFrom number offset (before ++ text)) :
    offset + byteLength before ≤ l.stop := by
  by_cases htext : '\n' ∈ text
  · obtain ⟨line, rest, rfl, hline⟩ := List.eq_append_cons_of_mem htext
    have hno : '\n' ∉ before ++ line := by simp [h, hline]
    rw [← List.append_assoc, linesFrom_cons hno] at hl
    rcases List.mem_cons.mp hl with rfl | hl
    · simp only [stop, byteLength_append]
      omega
    · have hbounds := bounds_of_mem hl
      rw [byteLength_append] at hbounds
      simp only [stop]
      omega
  · have hno : '\n' ∉ before ++ text := by simp [h, htext]
    rw [linesFrom_of_notMem hno, List.mem_singleton] at hl
    subst hl
    simp only [stop, byteLength_append]
    omega

/-- No line begins after the text that the last one ends with. -/
theorem offset_le_of_mem {l : SourceLine} (h : '\n' ∉ after) (hl : l ∈ linesFrom number offset (text ++ after)) :
    l.offset ≤ offset + byteLength text := by
  induction text using Text.line_induction generalizing number offset with
  | last line hline =>
    have hno : '\n' ∉ line ++ after := by simp [h, hline]
    rw [linesFrom_of_notMem hno, List.mem_singleton] at hl
    subst hl
    exact Nat.le_add_right _ _
  | more line rest hline ih =>
    have hlength := byteLength_append_lineFeed line rest
    rw [List.append_assoc, List.cons_append, linesFrom_cons hline] at hl
    rcases List.mem_cons.mp hl with rfl | hl
    · exact Nat.le_add_right _ _
    · have hrest := ih hl
      omega

theorem exists_first (number offset : Nat) (text : List Char) :
    ∃ l ∈ linesFrom number offset text, l.offset = offset := by
  by_cases h : '\n' ∈ text
  · obtain ⟨line, rest, rfl, hno⟩ := List.eq_append_cons_of_mem h
    rw [linesFrom_cons hno]
    exact ⟨_, List.mem_cons_self, rfl⟩
  · rw [linesFrom_of_notMem h]
    exact ⟨_, List.mem_cons_self, rfl⟩

/-! What is touched is found without the lines above and below. -/

variable {s : Span} {above below : List Char}

theorem filter_touched_above (habove : above = [] ∨ ∃ lines, above = lines ++ ['\n'])
    (hstart : offset + byteLength above ≤ s.start) (text : List Char) :
    (linesFrom number offset (above ++ text)).filter (Touched s) =
      (linesFrom (number + above.count '\n') (offset + byteLength above) text).filter (Touched s) := by
  rcases habove with rfl | ⟨lines, rfl⟩
  · rfl
  · have hlength := byteLength_append_lineFeed lines []
    rw [byteLength_nil, Nat.add_zero] at hlength
    have hnone : (linesFrom number offset lines).filter (Touched s) = [] := by
      refine List.filter_eq_nil_iff.mpr fun l hl ht => ?_
      have hbounds := bounds_of_mem hl
      have htouched : l.Touched s := of_decide_eq_true ht
      have hreach := htouched.2
      omega
    rw [List.append_assoc, List.singleton_append, linesFrom_append, List.filter_append, hnone, List.nil_append, hlength,
      List.count_append, List.count_singleton_self]
    rfl

theorem filter_touched_below (hbelow : below = [] ∨ ∃ lines, below = '\n' :: lines)
    (hstop : s.stop ≤ offset + byteLength text) :
    (linesFrom number offset (text ++ below)).filter (Touched s) =
      (linesFrom number offset text).filter (Touched s) := by
  rcases hbelow with rfl | ⟨lines, rfl⟩
  · rw [List.append_nil]
  · rw [linesFrom_append, List.filter_append, List.append_right_eq_self]
    refine List.filter_eq_nil_iff.mpr fun l hl ht => ?_
    have hbounds := bounds_of_mem hl
    have htouched : l.Touched s := of_decide_eq_true ht
    have hreach := htouched.1
    omega

end Lines

end SourceLine

/-! ## The lines around a place -/

/-- A text cut where a place begins and ends, and where the lines of its ends do. -/
structure Span.Parts (s : Span) (source above lead part tail below : List Char) : Prop where
  source_eq : source = above ++ (lead ++ part ++ tail) ++ below
  start_eq : s.start = byteLength above + byteLength lead
  stop_eq : s.stop = byteLength above + byteLength (lead ++ part)
  lead_notMem : '\n' ∉ lead
  tail_notMem : '\n' ∉ tail
  above_ends : above = [] ∨ ∃ lines, above = lines ++ ['\n']
  below_begins : below = [] ∨ ∃ lines, below = '\n' :: lines

theorem exists_lastLine (before : List Char) :
    ∃ above lead, before = above ++ lead ∧ '\n' ∉ lead ∧ (above = [] ∨ ∃ lines, above = lines ++ ['\n']) := by
  induction before using Text.line_induction with
  | last line h => exact ⟨[], line, rfl, h, Or.inl rfl⟩
  | more line rest h ih =>
    obtain ⟨above, lead, rfl, hlead, habove⟩ := ih
    refine ⟨line ++ '\n' :: above, lead, by simp, hlead, Or.inr ?_⟩
    rcases habove with rfl | ⟨lines, rfl⟩
    · exact ⟨line, rfl⟩
    · exact ⟨line ++ '\n' :: lines, by simp⟩

theorem exists_firstLine (after : List Char) :
    ∃ tail below, after = tail ++ below ∧ '\n' ∉ tail ∧ (below = [] ∨ ∃ lines, below = '\n' :: lines) := by
  by_cases h : '\n' ∈ after
  · obtain ⟨tail, lines, rfl, htail⟩ := List.eq_append_cons_of_mem h
    exact ⟨tail, _, rfl, htail, Or.inr ⟨lines, rfl⟩⟩
  · exact ⟨after, [], by simp, h, Or.inl rfl⟩

theorem exists_spanParts {s : Span} {source : List Char} (hs : s.Within 0 source) :
    ∃ above lead part tail below, s.Parts source above lead part tail below := by
  obtain ⟨part, before, after, rfl, rfl⟩ := hs
  obtain ⟨above, lead, rfl, hlead, habove⟩ := exists_lastLine before
  obtain ⟨tail, below, rfl, htail, hbelow⟩ := exists_firstLine after
  exact ⟨above, lead, part, tail, below, by simp, by simp, by simp [Nat.add_assoc], hlead, htail, habove, hbelow⟩

/-- What stands before the first line feed. -/
theorem takeWhile_line {line rest : List Char} (h : '\n' ∉ line) (hrest : rest = [] ∨ ∃ lines, rest = '\n' :: lines) :
    (line ++ rest).takeWhile (· != '\n') = line := by
  show (splitLine (line ++ rest)).1 = line
  rcases hrest with rfl | ⟨lines, rfl⟩
  · rw [List.append_nil, splitLine_of_notMem h]
  · rw [splitLine_append_lineFeed, splitLine_of_notMem h]

theorem byteLength_reverse (text : List Char) : byteLength text.reverse = byteLength text := by
  induction text with
  | nil => rfl
  | cons c rest ih =>
    rw [List.reverse_cons, byteLength_append, ih, byteLength_cons, byteLength_cons, byteLength_nil]
    omega

namespace Span.Parts

variable {s : Span} {source above lead part tail below : List Char} (h : s.Parts source above lead part tail below)
include h

theorem takeBytes?_start : takeBytes? s.start source = some (above ++ lead) := by
  have hsplit : source = above ++ lead ++ (part ++ tail ++ below) := by simp [h.source_eq]
  rw [h.start_eq, ← byteLength_append, hsplit, takeBytes?_append]

theorem takeBytes?_stop : takeBytes? s.stop source = some (above ++ (lead ++ part)) := by
  have hsplit : source = above ++ (lead ++ part) ++ (tail ++ below) := by simp [h.source_eq]
  rw [h.stop_eq, ← byteLength_append, hsplit, takeBytes?_append]

theorem dropBytes?_stop : dropBytes? s.stop source = some (tail ++ below) := by
  have hsplit : source = above ++ (lead ++ part) ++ (tail ++ below) := by simp [h.source_eq]
  rw [h.stop_eq, ← byteLength_append, hsplit, dropBytes?_append]

theorem lineOf_start : lineOf source s.start = 1 + above.count '\n' := by
  rw [lineOf, h.takeBytes?_start, Option.getD_some, List.count_append, List.count_eq_zero_of_not_mem h.lead_notMem,
    Nat.add_zero, Nat.add_comm]

theorem lineOf_stop : lineOf source s.stop = 1 + above.count '\n' + part.count '\n' := by
  rw [lineOf, h.takeBytes?_stop, Option.getD_some, List.count_append, List.count_append,
    List.count_eq_zero_of_not_mem h.lead_notMem]
  omega

theorem firstLineStart_eq : s.firstLineStart source = byteLength above := by
  have habove : above.reverse = [] ∨ ∃ lines, above.reverse = '\n' :: lines := by
    rcases h.above_ends with rfl | ⟨lines, rfl⟩
    · exact Or.inl rfl
    · exact Or.inr ⟨lines.reverse, by simp⟩
  have hlead : '\n' ∉ lead.reverse := by simpa using h.lead_notMem
  simp only [firstLineStart, h.takeBytes?_start]
  rw [List.reverse_append, takeWhile_line hlead habove, byteLength_reverse, byteLength_append]
  omega

theorem lastLineStop_eq : s.lastLineStop source = byteLength above + byteLength (lead ++ part ++ tail) := by
  simp only [lastLineStop, h.dropBytes?_stop]
  rw [takeWhile_line h.tail_notMem h.below_begins, h.stop_eq, byteLength_append (lead ++ part)]
  omega

theorem touchedText_eq : s.touchedText source = lead ++ part ++ tail := by
  have hcuts : Span.Cuts ⟨s.firstLineStart source, s.lastLineStop source⟩ 0 source (lead ++ part ++ tail) := by
    refine ⟨above, below, h.source_eq, ?_⟩
    rw [h.firstLineStart_eq, h.lastLineStop_eq, Nat.zero_add]
  rw [touchedText, slice?_of_cuts hcuts, Option.getD_some]

open SourceLine

/-- The lines that a place touches are those of the parts around it. -/
theorem filter_touched :
    (ofText source).filter (Touched s) =
      linesFrom (1 + above.count '\n') (byteLength above) (lead ++ part ++ tail) := by
  have hstart := h.start_eq
  have hstop := h.stop_eq
  have hlength := byteLength_append (lead ++ part) tail
  rw [ofText, h.source_eq, List.append_assoc above, filter_touched_above h.above_ends (by omega),
    filter_touched_below h.below_begins (by omega), Nat.zero_add]
  refine List.filter_eq_self.mpr fun l hl => decide_eq_true ?_
  have hoffset := offset_le_of_mem h.tail_notMem hl
  rw [List.append_assoc] at hl
  have hreach := le_stop_of_mem h.lead_notMem hl
  exact ⟨by omega, by omega⟩

end Span.Parts

/-! ## What is drawn of a line -/

namespace SourceLine

/-- The line and its marks, as they are found. -/
def excerptLine (s : Span) (l : SourceLine) : ExcerptLine := ⟨l.number, l.shown, l.marks s⟩

theorem render_excerptLine (width : Nat) (s : Span) (l : SourceLine) :
    (l.excerptLine s).render width = l.pair width s := by
  simp only [ExcerptLine.render, pair, gutter, markGutter, alignRight, excerptLine, String.append_assoc]

theorem trimLineEnd_lineFeed (line : List Char) : trimLineEnd (line ++ ['\n']) = trimLineEnd line :=
  List.rdropWhile_concat_pos _ line '\n' rfl

/-- Of a line without a line feed nothing but carriage returns is trimmed. -/
theorem trimLineEnd_of_notMem {line : List Char} (h : '\n' ∉ line) :
    trimLineEnd line = line.rdropWhile (· == '\r') := by
  show line.rdropWhile (fun c => c == '\n' || c == '\r') = _
  induction line using List.reverseRecOn with
  | nil => rfl
  | append_singleton line c ih =>
    have hc : c ≠ '\n' := fun e => h (by simp [e])
    have hline : '\n' ∉ line := fun hm => h (List.mem_append_left _ hm)
    rw [List.rdropWhile_concat, List.rdropWhile_concat, ih hline]
    simp [hc]

/-- The marks are found with an offset that is counted on from character to character. -/
theorem marks_mapIdx (s : Span) (offset : Nat) (text : List Char) :
    s.marks offset text = text.mapIdx fun i c =>
      if s.start ≤ offset + byteLength (text.take i) ∧ offset + byteLength (text.take i) < s.stop then '~'
      else if c = '\t' then '\t' else ' ' := by
  induction text generalizing offset with
  | nil => rfl
  | cons c rest ih =>
    rw [Span.marks, ih, List.mapIdx_cons]
    simp only [Span.covers, Bool.and_eq_true, decide_eq_true_eq, List.take_zero, byteLength_nil, Nat.add_zero,
      List.take_succ_cons, byteLength_cons, Nat.add_assoc]
    congr

/-- The excerpt of lines that a place touches all of leaves out the last one if the place
    ends there and nothing stands on it. -/
theorem excerptFrom_terminatedLines {s : Span} {number offset : Nat} {text : List Char}
    (hstop : s.stop ≤ offset + byteLength text) (hlast : ∀ l ∈ linesFrom number offset text, l.offset ≤ s.stop) :
    excerptFrom s number offset (terminatedLines text) =
      ((linesFrom number offset text).filter fun l => ¬ l.EndsBare s).map (excerptLine s) := by
  induction text using Text.line_induction generalizing number offset with
  | last line h =>
    rw [linesFrom_of_notMem h]
    cases line with
    | nil =>
      have hbare : EndsBare s ⟨number, offset, []⟩ := ⟨hstop, rfl⟩
      rw [List.filter_cons_of_neg (by simpa using hbare)]
      rfl
    | cons c rest =>
      have hdrawn : ¬ EndsBare s ⟨number, offset, c :: rest⟩ := fun hbare => List.cons_ne_nil _ _ hbare.2
      rw [List.filter_cons_of_pos (by simpa using hdrawn), terminatedLines_of_notMem h (List.cons_ne_nil _ _),
        excerptFrom, excerptFrom, trimLineEnd_of_notMem h, marks_mapIdx]
      rfl
  | more line rest h ih =>
    rw [linesFrom_cons h] at hlast ⊢
    obtain ⟨-, hrest⟩ := List.forall_mem_cons.mp hlast
    -- the place ends on a later line
    obtain ⟨next, hnext, hoffset⟩ := exists_first (number + 1) (offset + byteLength line + 1) rest
    have hlater : offset + byteLength line < s.stop := by
      have := hrest next hnext
      omega
    have hdrawn : ¬ EndsBare s ⟨number, offset, line⟩ := fun hbare => Nat.not_le_of_lt hlater hbare.1
    have hsize := byteLength_append_lineFeed line rest
    have hnextOffset : offset + byteLength (line ++ ['\n']) = offset + byteLength line + 1 := by
      rw [byteLength_append_lineFeed, byteLength_nil]
      omega
    rw [List.filter_cons_of_pos (by simpa using hdrawn), List.map_cons, ← ih (by omega) hrest, terminatedLines_append h,
      excerptFrom, trimLineEnd_lineFeed, trimLineEnd_of_notMem h, marks_mapIdx, hnextOffset]
    rfl

end SourceLine

open SourceLine

section Excerpt

variable {source : List Char} {s : Span}

/-- The lines of an excerpt are those that are to be drawn. -/
theorem excerpt_eq (hs : s.Within 0 source) :
    excerpt source s = ((ofText source).filter (Drawn s)).map (excerptLine s) := by
  obtain ⟨above, lead, part, tail, below, h⟩ := exists_spanParts hs
  have hdrawn : (ofText source).filter (Drawn s) =
      ((ofText source).filter (Touched s)).filter fun l => ¬ l.EndsBare s := by
    rw [List.filter_filter]
    refine List.filter_congr fun l _ => ?_
    rw [Bool.eq_iff_iff]
    simp [Drawn, and_comm]
  have hlength := byteLength_append (lead ++ part) tail
  have hstop := h.stop_eq
  rw [hdrawn, h.filter_touched, excerpt, h.touchedText_eq, h.firstLineStart_eq, h.lineOf_start]
  refine excerptFrom_terminatedLines (by omega) fun l hl => ?_
  rw [hstop]
  exact offset_le_of_mem h.tail_notMem hl

/-- What is printed below a header. -/
theorem map_render_excerpt (hs : s.Within 0 source) (width : Nat) :
    (excerpt source s).map (ExcerptLine.render width) = ((ofText source).filter (Drawn s)).map (pair width s) := by
  rw [excerpt_eq hs, List.map_map]
  exact List.map_congr_left fun l _ => render_excerptLine width s l

/-- The touched lines are numbered from the line of the start to the line of the end. -/
theorem number_touched (hs : s.Within 0 source) :
    ((ofText source).filter (Touched s)).map SourceLine.number =
      List.range' (lineOf source s.start) (lineOf source s.stop + 1 - lineOf source s.start) := by
  obtain ⟨above, lead, part, tail, below, h⟩ := exists_spanParts hs
  have hcount : (lead ++ part ++ tail).count '\n' + 1 = 1 + above.count '\n' + part.count '\n' + 1 -
      (1 + above.count '\n') := by
    rw [List.count_append, List.count_append, List.count_eq_zero_of_not_mem h.lead_notMem,
      List.count_eq_zero_of_not_mem h.tail_notMem]
    omega
  rw [h.filter_touched, map_number_linesFrom, h.lineOf_start, h.lineOf_stop, hcount]

/-- A smaller number is not wider. -/
theorem length_repr_mono {n m : Nat} (h : n ≤ m) : (Nat.repr n).length ≤ (Nat.repr m).length := by
  have hm : m < 10 ^ (Nat.toDigits 10 m).length :=
    (Nat.length_toDigits_le_iff (by omega) Nat.length_toDigits_pos).mp (Nat.le_refl _)
  have hn : (Nat.toDigits 10 n).length ≤ (Nat.toDigits 10 m).length :=
    (Nat.length_toDigits_le_iff (by omega) Nat.length_toDigits_pos).mpr (Nat.lt_of_le_of_lt h hm)
  simpa [Nat.repr] using hn

theorem width_touched (hs : s.Within 0 source) :
    ∀ l ∈ (ofText source).filter (Touched s),
      (Nat.repr l.number).length ≤ (Nat.repr (lineOf source s.stop)).length := by
  intro l hl
  have hmem := List.mem_map_of_mem (f := SourceLine.number) hl
  rw [number_touched hs, List.mem_range'_1] at hmem
  apply length_repr_mono
  omega

end Excerpt

/-! ## What is shown of an entry -/

/-- The first note of an entry, with the notes that follow it. -/
def Entry.note? (e : Entry) : Option Entry :=
  match e.notes with
  | [] => none
  | note :: rest => some ⟨note, rest⟩

theorem Entry.render_eq (source : List Char) (e : Entry) :
    e.render source = e.remark.render source ++ (e.note?.map (Entry.render source)).getD "" := by
  cases e with
  | mk remark notes =>
    cases notes with
    | nil => simp [render, chain, note?]
    | cons note rest => simp [render, chain, note?]

/-- An entry about a part of a text shows its header, then a pair for each line that the
    part touches, but for the last one if nothing stands on it, then its note in the same
    way. The touched lines are numbered from that of the start of the part to that of its
    end, whose number is the widest. -/
theorem render_of_place {source : List Char} {e : Entry} {s : Span} (hplace : e.remark.place = some s)
    (hs : s.Within 0 source) :
    ((ofText source).filter (Touched s)).map SourceLine.number =
        List.range' (lineOf source s.start) (lineOf source s.stop + 1 - lineOf source s.start) ∧
      (∀ l ∈ (ofText source).filter (Touched s),
        (Nat.repr l.number).length ≤ (Nat.repr (lineOf source s.stop)).length) ∧
      e.render source = e.remark.header ++
        String.join (((ofText source).filter (Drawn s)).map (pair (Nat.repr (lineOf source s.stop)).length s)) ++
        (e.note?.map (Entry.render source)).getD "" := by
  refine ⟨number_touched hs, width_touched hs, ?_⟩
  rw [Entry.render_eq, Remark.render, hplace]
  simp only [map_render_excerpt hs]
  rfl

/-- A place from the first line to the third, which is empty, and a note on a place behind
    a tab. -/
theorem render_of_three_lines :
    Span.Within ⟨1, 8⟩ 0 "ab\r\n\té\n".toList ∧
      ((ofText "ab\r\n\té\n".toList).filter (Touched ⟨1, 8⟩)).map SourceLine.number = [1, 2, 3] ∧
      Entry.render "ab\r\n\té\n".toList ⟨⟨.error, "here", some ⟨1, 8⟩⟩, [⟨.info, "there", some ⟨5, 7⟩⟩]⟩ =
        "\x1b[1m\x1b[31merror\x1b[0;22m\x1b[1m: here\x1b[0;22m\n" ++
        "\x1b[1m\x1b[36m1 | \x1b[0;22mab\n" ++ "\x1b[1m\x1b[36m     ~\x1b[0;22m\n" ++
        "\x1b[1m\x1b[36m2 | \x1b[0;22m\té\n" ++ "\x1b[1m\x1b[36m    ~~\x1b[0;22m\n" ++
        "\x1b[1m\x1b[36minfo\x1b[0;22m\x1b[1m: there\x1b[0;22m\n" ++
        "\x1b[1m\x1b[36m2 | \x1b[0;22m\té\n" ++ "\x1b[1m\x1b[36m    \t~\x1b[0;22m\n" := by
  have hs : Span.Within ⟨1, 8⟩ 0 "ab\r\n\té\n".toList := ⟨"b\r\n\té\n".toList, ['a'], [], rfl, by decide⟩
  obtain ⟨hnumbers, -, hrender⟩ :=
    @render_of_place _ ⟨⟨.error, "here", some ⟨1, 8⟩⟩, [⟨.info, "there", some ⟨5, 7⟩⟩]⟩ _ rfl hs
  refine ⟨hs, hnumbers.trans (by decide +kernel), hrender.trans (by decide +kernel)⟩

end Pushdown
