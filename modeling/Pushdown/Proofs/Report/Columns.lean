/-
  Pushdown.Proofs.Report.Columns — how far the marks of an excerpt stay under the text.

  A tab goes on to the next tab stop, an escape of the report takes no room, any other
  character takes one column. Before a place the marks copy the tabs of the line above, so
  the columns agree. Inside it every mark is a tilde, under a tab as well: from a tab on that
  is wider than one column, the marks of the rest of the place stand too far to the left
  (`aligned_iff_no_wideTab`), as under the definition of `not_all_marks_aligned`.
-/

import Pushdown.Definition
import Pushdown.Proofs.Report.Excerpt

namespace Pushdown

open Text

/-! ## Columns -/

namespace Ansi

/-- What is left of a text without its escapes, when one of them is open or none is: an
    escape ends with its first `m`. -/
def plainFrom : Bool → List Char → List Char
  | _, [] => []
  | true, c :: rest => plainFrom (c != 'm') rest
  | false, c :: rest => if c = '\x1b' then plainFrom true rest else c :: plainFrom false rest

def plain (text : List Char) : List Char := plainFrom false text

theorem plain_append {text : List Char} (h : '\x1b' ∉ text) (rest : List Char) :
    plain (text ++ rest) = text ++ plain rest := by
  induction text with
  | nil => rfl
  | cons c text ih =>
    obtain ⟨hc, htext⟩ := List.ne_and_not_mem_of_not_mem_cons h
    show plainFrom false (c :: (text ++ rest)) = _
    rw [plainFrom, if_neg (Ne.symm hc)]
    exact congrArg (c :: ·) (ih htext)

theorem plain_boldCyan (rest : List Char) : plain (bold.toList ++ cyan.toList ++ rest) = plain rest := rfl

end Ansi

/-- The column after a character that stands in a given one. -/
def advance (tab column : Nat) (c : Char) : Nat := if c = '\t' then (column / tab + 1) * tab else column + 1

/-- The column after a text that begins a line. -/
def screenColumn (tab : Nat) (text : List Char) : Nat := text.foldl (advance tab) 0

section Columns

variable {tab : Nat} {c : Char}

theorem advance_of_ne (h : c ≠ '\t') (column : Nat) : advance tab column c = column + 1 := if_neg h

/-- A tab stop lies to the right. -/
theorem lt_advance (htab : 0 < tab) (column : Nat) (c : Char) : column < advance tab column c := by
  rw [advance]
  split
  · rw [Nat.add_mul, Nat.one_mul, Nat.mul_comm]
    exact Nat.lt_mul_div_succ column htab
  · exact Nat.lt_succ_self column

theorem screenColumn_append_singleton (text : List Char) (c : Char) :
    screenColumn tab (text ++ [c]) = advance tab (screenColumn tab text) c := by
  rw [screenColumn, List.foldl_append]
  rfl

theorem screenColumn_of_notMem {text : List Char} (h : '\t' ∉ text) : screenColumn tab text = text.length := by
  induction text using List.reverseRecOn with
  | nil => rfl
  | append_singleton text c ih =>
    have hc : c ≠ '\t' := fun e => h (by simp [e])
    have htext : '\t' ∉ text := fun hm => h (List.mem_append_left _ hm)
    rw [screenColumn_append_singleton, advance_of_ne hc, ih htext, List.length_append, List.length_singleton]

end Columns

namespace SourceLine

/-- The column that character `j` of those shown begins in. -/
def charColumn (tab width : Nat) (l : SourceLine) (j : Nat) : Nat :=
  screenColumn tab (Ansi.plain (l.gutter width).toList ++ l.shown.take j)

/-- The column that its mark begins in. -/
def markColumn (tab width : Nat) (s : Span) (l : SourceLine) (j : Nat) : Nat :=
  screenColumn tab (Ansi.plain (markGutter width).toList ++ (l.marks s).take j)

/-! ## Gutters -/

theorem plain_markGutter (width : Nat) : Ansi.plain (markGutter width).toList = List.replicate (width + 3) ' ' := by
  have hspaces : '\x1b' ∉ List.replicate (width + 3) ' ' := by simp [List.mem_replicate]
  have hopen : (markGutter width).toList =
      Ansi.bold.toList ++ Ansi.cyan.toList ++ (List.replicate (width + 3) ' ' ++ []) := by
    simp only [markGutter, blanks, String.toList_append, String.toList_ofList, List.append_nil]
  rw [hopen, Ansi.plain_boldCyan, Ansi.plain_append hspaces]
  exact List.append_nil _

/-- A number, right aligned, and the bar behind it. -/
def numbered (width n : Nat) : List Char :=
  List.replicate (width - (Nat.repr n).length) ' ' ++ (Nat.repr n).toList ++ " | ".toList

theorem notMem_numbered {c : Char} (hdigit : c.isDigit = false) (hbar : c ∉ " | ".toList) (width n : Nat) :
    c ∉ numbered width n := by
  intro h
  rcases List.mem_append.mp h with h | h
  · rcases List.mem_append.mp h with hspace | hn
    · rw [List.eq_of_mem_replicate hspace] at hbar
      exact hbar (by decide)
    · rw [Nat.toList_repr] at hn
      have hisDigit : c.isDigit = true := Nat.isDigit_of_mem_toDigits (by omega) (by omega) hn
      rw [hdigit] at hisDigit
      cases hisDigit
  · exact hbar h

theorem length_numbered {width n : Nat} (h : (Nat.repr n).length ≤ width) : (numbered width n).length = width + 3 := by
  have hbar : " | ".toList.length = 3 := rfl
  simp only [numbered, List.length_append, List.length_replicate, String.length_toList, hbar]
  omega

theorem plain_gutter (width : Nat) (l : SourceLine) :
    Ansi.plain (l.gutter width).toList = numbered width l.number := by
  have hplain : '\x1b' ∉ numbered width l.number := notMem_numbered (by decide) (by decide) width l.number
  have hopen : (l.gutter width).toList =
      Ansi.bold.toList ++ Ansi.cyan.toList ++ (numbered width l.number ++ Ansi.reset.toList) := by
    simp only [gutter, numbered, blanks, String.toList_append, String.toList_ofList, List.append_assoc]
  have hreset : Ansi.plain Ansi.reset.toList = [] := rfl
  rw [hopen, Ansi.plain_boldCyan, Ansi.plain_append hplain, hreset, List.append_nil]

section Shown

variable {tab width : Nat} {s : Span} {l : SourceLine}

/-- The marks begin in the column that the text above them begins in. -/
theorem charColumn_zero (h : (Nat.repr l.number).length ≤ width) : l.charColumn tab width 0 = width + 3 := by
  have hplain : '\t' ∉ numbered width l.number := notMem_numbered (by decide) (by decide) width l.number
  rw [charColumn, List.take_zero, List.append_nil, plain_gutter, screenColumn_of_notMem hplain, length_numbered h]

theorem markColumn_zero : l.markColumn tab width s 0 = width + 3 := by
  rw [markColumn, List.take_zero, List.append_nil, plain_markGutter, screenColumn_of_notMem, List.length_replicate]
  simp [List.mem_replicate]

/-! ## One character on -/

variable {j : Nat}

theorem charColumn_succ (h : j < l.shown.length) :
    l.charColumn tab width (j + 1) = advance tab (l.charColumn tab width j) (l.shown[j]) := by
  rw [charColumn, List.take_succ_eq_append_getElem h, ← List.append_assoc, screenColumn_append_singleton]
  rfl

theorem markColumn_succ (h : j < l.shown.length) :
    l.markColumn tab width s (j + 1) = advance tab (l.markColumn tab width s j) (l.mark s j (l.shown[j])) := by
  have hmarks : j < (l.marks s).length := by rwa [marks, List.length_mapIdx]
  have hmark : (l.marks s)[j] = l.mark s j (l.shown[j]) := List.getElem_mapIdx
  rw [markColumn, List.take_succ_eq_append_getElem hmarks, ← List.append_assoc, screenColumn_append_singleton, hmark]
  rfl

theorem offsetOf_mono {i : Nat} (h : i ≤ j) : l.offsetOf i ≤ l.offsetOf j := by
  obtain ⟨k, rfl⟩ := Nat.exists_eq_add_of_le h
  rw [offsetOf, offsetOf, List.take_add, byteLength_append]
  omega

/-- Outside the place a mark is as wide as the character above it, if they begin in one
    column. -/
theorem advance_mark_outside {i : Nat} (h : ¬ (s.start ≤ l.offsetOf i ∧ l.offsetOf i < s.stop)) (column : Nat)
    (c : Char) : advance tab column (l.mark s i c) = advance tab column c := by
  rw [mark, if_neg h]
  split
  · next hc => rw [hc]
  · next hc => rw [advance_of_ne hc, advance_of_ne (by decide)]

/-- Up to the end of the place no mark is to the right of its character, and a mark is to
    the left of it once a character of the place is wider than its mark. -/
theorem markColumn_le (htab : 0 < tab) (hwidth : (Nat.repr l.number).length ≤ width) (hj : j ≤ l.shown.length)
    (hstop : ∀ i < j, l.offsetOf i < s.stop) :
    l.markColumn tab width s j ≤ l.charColumn tab width j ∧
      (l.markColumn tab width s j = l.charColumn tab width j ↔
        ∀ i < j, s.start ≤ l.offsetOf i → l.charColumn tab width (i + 1) = l.charColumn tab width i + 1) := by
  induction j with
  | zero =>
    rw [markColumn_zero, charColumn_zero hwidth]
    exact ⟨Nat.le_refl _, iff_of_true rfl fun i hi => absurd hi (Nat.not_lt_zero i)⟩
  | succ j ih =>
    obtain ⟨hle, heq⟩ := ih (by omega) fun i hi => hstop i (by omega)
    have hreach := hstop j (by omega)
    by_cases hstart : s.start ≤ l.offsetOf j
    · -- the mark is a tilde, and what it falls back by is never made up for
      have hmark : l.markColumn tab width s (j + 1) = l.markColumn tab width s j + 1 := by
        rw [markColumn_succ (by omega), mark, if_pos ⟨hstart, hreach⟩, advance_of_ne (by decide)]
      have hchar : l.charColumn tab width j < l.charColumn tab width (j + 1) := by
        rw [charColumn_succ (by omega)]
        exact lt_advance htab _ _
      rw [hmark, Nat.forall_lt_succ_right]
      refine ⟨by omega, fun h => ⟨heq.mp (by omega), fun _ => by omega⟩, fun ⟨hearlier, hlast⟩ => ?_⟩
      have hhere := heq.mpr hearlier
      have hnext := hlast hstart
      omega
    · -- neither this character nor one before it is in the place
      have hbefore : ∀ i < j + 1, ¬ s.start ≤ l.offsetOf i := fun i hi h =>
        hstart (Nat.le_trans h (offsetOf_mono (by omega)))
      have hhere : l.markColumn tab width s j = l.charColumn tab width j :=
        heq.mpr fun i hi h => absurd h (hbefore i (by omega))
      have hnext : l.markColumn tab width s (j + 1) = l.charColumn tab width (j + 1) := by
        rw [markColumn_succ (by omega), charColumn_succ (by omega), advance_mark_outside fun h => hstart h.1, hhere]
      exact ⟨Nat.le_of_eq hnext, iff_of_true hnext fun i hi h => absurd h (hbefore i hi)⟩

end Shown

end SourceLine

open SourceLine

/-- Below a header stand the pairs of the lines of a place. In each of them the mark of a
    character of the place stands under it if and only if no tab of the place that stands
    before it on its line is wider than one column. Only the escapes that the report adds
    take no room: one that stands in the source itself counts a column for each of its
    characters, in the line and in the marks. -/
theorem aligned_iff_no_wideTab {source : List Char} {s : Span} (hs : s.Within 0 source) {tab : Nat} (htab : 0 < tab) :
    (excerpt source s).map (ExcerptLine.render (Remark.numberWidth source s)) =
        ((ofText source).filter (Drawn s)).map (pair (Remark.numberWidth source s) s) ∧
      ∀ l ∈ (ofText source).filter (Drawn s), ∀ j < l.shown.length, s.start ≤ l.offsetOf j → l.offsetOf j < s.stop →
        (l.markColumn tab (Remark.numberWidth source s) s j = l.charColumn tab (Remark.numberWidth source s) j ↔
          ∀ i < j, s.start ≤ l.offsetOf i → l.shown[i]? = some '\t' →
            l.charColumn tab (Remark.numberWidth source s) (i + 1) =
              l.charColumn tab (Remark.numberWidth source s) i + 1) := by
  refine ⟨map_render_excerpt hs _, fun l hl j hj _ hstop => ?_⟩
  have htouched : l ∈ (ofText source).filter (Touched s) := by
    obtain ⟨hmem, hdrawn⟩ := List.mem_filter.mp hl
    exact List.mem_filter.mpr ⟨hmem, decide_eq_true (of_decide_eq_true hdrawn).1⟩
  have hwidth : (Nat.repr l.number).length ≤ Remark.numberWidth source s := width_touched hs l htouched
  have hbefore : ∀ i < j, l.offsetOf i < s.stop := fun i hi => Nat.lt_of_le_of_lt (offsetOf_mono (by omega)) hstop
  rw [(markColumn_le htab hwidth (by omega) hbefore).2]
  refine forall_congr' fun i => forall_congr' fun hi => forall_congr' fun _ => ⟨fun h _ => h, fun h => ?_⟩
  by_cases hc : l.shown[i] = '\t'
  · exact h (List.getElem?_eq_some_iff.mpr ⟨by omega, hc⟩)
  · rw [charColumn_succ (by omega), advance_of_ne hc]

/-- Two initial states, with a tab between them. -/
def tabbedStates : String := "initial_state:a,\tb"

/-- The error about the two states is told of all that stands behind the colon. The tab is
    in the column of its mark, the state behind it is not. -/
theorem aligned_up_to_tab :
    (∃ e ∈ (Definition.ofSource tabbedStates).report.entries.toList, e.remark.place = some ⟨14, 18⟩) ∧
      Span.Within ⟨14, 18⟩ 0 tabbedStates.toList ∧ 0 < 8 ∧
      markColumn 8 1 ⟨14, 18⟩ ⟨1, 0, tabbedStates.toList⟩ 16 = charColumn 8 1 ⟨1, 0, tabbedStates.toList⟩ 16 ∧
      markColumn 8 1 ⟨14, 18⟩ ⟨1, 0, tabbedStates.toList⟩ 17 ≠ charColumn 8 1 ⟨1, 0, tabbedStates.toList⟩ 17 := by
  have hs : Span.Within ⟨14, 18⟩ 0 tabbedStates.toList :=
    ⟨"a,\tb".toList, "initial_state:".toList, [], rfl, by decide⟩
  have hl : (⟨1, 0, tabbedStates.toList⟩ : SourceLine) ∈ (ofText tabbedStates.toList).filter (Drawn ⟨14, 18⟩) := by
    decide +kernel
  have hiff := (@aligned_iff_no_wideTab _ _ hs 8 (by decide)).2 _ hl
  refine ⟨by decide +kernel, hs, by decide, ?_, ?_⟩
  · refine (hiff 16 (by decide +kernel) (by decide +kernel) (by decide +kernel)).mpr ?_
    decide +kernel
  · intro h
    have htab := (hiff 17 (by decide +kernel) (by decide +kernel) (by decide +kernel)).mp h
    exact absurd (htab 16 (by decide) (by decide +kernel) (by decide +kernel)) (by decide +kernel)

/-- Behind a tab of the place a mark need not stand under its character. -/
theorem not_all_marks_aligned :
    ¬ ∀ (source : List Char) (s : Span), s.Within 0 source → ∀ tab, 0 < tab →
      ∀ l ∈ (ofText source).filter (Drawn s), ∀ j < l.shown.length, s.start ≤ l.offsetOf j → l.offsetOf j < s.stop →
        l.markColumn tab (Remark.numberWidth source s) s j = l.charColumn tab (Remark.numberWidth source s) j := by
  intro h
  have hs : Span.Within ⟨14, 18⟩ 0 tabbedStates.toList :=
    ⟨"a,\tb".toList, "initial_state:".toList, [], rfl, by decide⟩
  have hall := h tabbedStates.toList ⟨14, 18⟩ hs 8 (by decide) ⟨1, 0, tabbedStates.toList⟩ (by decide +kernel) 17
    (by decide +kernel) (by decide +kernel) (by decide +kernel)
  exact absurd hall (by decide +kernel)

end Pushdown
