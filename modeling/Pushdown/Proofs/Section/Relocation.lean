/-
  Pushdown.Proofs.Section.Relocation — lines at other places are read as the same sections
  at other places.

  Each reader looks at the tokens of a line and takes its places from there; how deep a
  line is only matters against the line that opens its block and against the first line
  of the block. So reading goes with any move of the places and any change of the indents
  that keeps their order (`readSections_move`).
-/

import Pushdown.Proofs.Relocation
import Pushdown.Proofs.Section.Grammar

namespace Pushdown

variable {m : Relocation} {indent : Nat → Nat}

theorem map_moveResult {α β : Type} {inner : α → α} {outer : β → β} {f g : α → β}
    (h : ∀ a, g (inner a) = outer (f a)) (r : Except Finding α) :
    (moveResult m inner r).map g = moveResult m outer (r.map f) := by
  cases r with
  | ok a => exact congrArg Except.ok (h a)
  | error e => rfl

/-! ## One line -/

theorem readNames_move (stop : Span) (tokens : List (Located Token)) :
    readNames (stop.move m) (tokens.map (Located.move m)) =
      moveResult m (List.map (Located.move m)) (readNames stop tokens) := by
  fun_induction readNames stop tokens with
  | case1 => rfl
  | case2 => rfl
  | case3 name place comma more ih =>
    rw [List.map_cons, List.map_cons, Located.move, Located.move, readNames, ih]
    refine map_moveResult (fun names => ?_) _
    rfl
  | case4 name place got elsewhere rest hne =>
    rw [List.map_cons, List.map_cons, Located.move, Located.move, readNames]
    · rfl
    · exact hne
  | case5 got place rest hne =>
    rw [List.map_cons, Located.move, readNames]
    · rfl
    · exact hne

theorem readNameList_move (stop : Span) (tokens : List (Located Token)) :
    readNameList (stop.move m) (tokens.map (Located.move m)) =
      moveResult m (List.map (Located.move m)) (readNameList stop tokens) := by
  cases tokens with
  | nil => rfl
  | cons t rest => exact readNames_move stop (t :: rest)

theorem readReplacement_move (openBracket lineStop : Span) (tokens : List (Located Token)) :
    readReplacement (openBracket.move m) (lineStop.move m) (tokens.map (Located.move m)) =
      moveResult m (Located.moveWith m (List.map (Located.move m))) (readReplacement openBracket lineStop tokens) := by
  have hvalue : (fun t : Located Token => t.value != .bracketClose) ∘ Located.move m =
      fun t => t.value != .bracketClose := rfl
  simp only [readReplacement, List.dropWhile_map, List.takeWhile_map, hvalue]
  cases tokens.dropWhile (·.value != .bracketClose) with
  | nil => rfl
  | cons close after =>
    cases after with
    | cons extra rest => rfl
    | nil =>
      simp only [List.map_cons, List.map_nil, Located.span_move, Span.start_move, Span.point_move, readNameList_move]
      refine map_moveResult (fun names => ?_) _
      rw [Span.join_move, Located.moveWith]

/-- What is a token at its new place was one at its old place. -/
theorem map_move_eq_cons {α : Type} {tokens rest : List (Located α)} {t : α} {place : Span} :
    tokens.map (Located.move m) = ⟨t, place⟩ :: rest ↔
      ∃ old more, tokens = ⟨t, old⟩ :: more ∧ old.move m = place ∧ more.map (Located.move m) = rest := by
  rw [List.map_eq_cons_iff]
  refine ⟨?_, ?_⟩
  · intro h
    obtain ⟨⟨t, old⟩, more, rfl, hl, rfl⟩ := h
    cases hl
    exact ⟨old, more, rfl, rfl, rfl⟩
  · intro h
    obtain ⟨old, more, rfl, rfl, rfl⟩ := h
    exact ⟨⟨t, old⟩, more, rfl, rfl, rfl⟩

theorem readTransition_move (line : Line) :
    readTransition (line.move m indent) =
      moveResult m (Located.moveWith m (TransitionLine.move m)) (readTransition line) := by
  simp only [readTransition, Line.tokens_move, Line.stop_move, Line.span_move]
  generalize line.tokens = tokens
  split
  · next h =>
    simp only [map_move_eq_cons] at h
    obtain ⟨_, _, rfl, rfl, _, _, rfl, rfl, _, _, rfl, rfl, _, _, rfl, rfl, _, _, rfl, rfl, _, _, rfl, rfl,
      _, _, rfl, rfl, _, _, rfl, rfl, rfl⟩ := h
    rw [readReplacement_move]
    refine map_moveResult (fun push => ?_) _
    rfl
  · next hne =>
    split
    · exact (hne _ _ _ _ _ _ _ _ _ _ _ _ rfl).elim
    · rfl

theorem readHeader_move (line : Line) :
    readHeader (line.move m indent) = moveResult m (Located.moveWith m (Located.move m)) (readHeader line) := by
  simp only [readHeader, Line.tokens_move, Line.span_move]
  generalize line.tokens = tokens
  split
  · next h =>
    simp only [map_move_eq_cons] at h
    obtain ⟨_, _, rfl, rfl, _, _, rfl, rfl, h⟩ := h
    obtain rfl := List.map_eq_nil_iff.mp h
    simp [moveResult, Located.moveWith, Located.move]
  · next hne =>
    split
    · exact (hne _ _ _ rfl).elim
    · rfl

/-! ## A block of transitions -/

def BlockLine.move (m : Relocation) : BlockLine → BlockLine
  | .header state => .header (state.moveWith m (Located.move m))
  | .transition t => .transition (t.moveWith m (TransitionLine.move m))
  | .badHeader f => .badHeader (f.move m)
  | .badTransition f => .badTransition (f.move m)

theorem read_move {headerIndent : Nat} {line : Line}
    (h : indent headerIndent < indent line.indent ↔ headerIndent < line.indent)
    (h' : indent line.indent < indent headerIndent ↔ line.indent < headerIndent) :
    BlockLine.read (indent headerIndent) (line.move m indent) = (BlockLine.read headerIndent line).move m := by
  simp only [BlockLine.read, Line.indent_move, h, h', readTransition_move, readHeader_move, Line.span_move]
  split
  · cases readTransition line <;> rfl
  · split
    · rfl
    · cases readHeader line <;> rfl

theorem finding?_move (line : BlockLine) : (line.move m).finding? = line.finding?.map (Finding.move m) := by
  cases line <;> rfl

theorem findings_move (lines : List BlockLine) :
    (lines.map (BlockLine.move m)).filterMap BlockLine.finding? =
      (lines.filterMap BlockLine.finding?).map (Finding.move m) := by
  rw [List.filterMap_map, List.map_filterMap]
  exact congrArg (List.filterMap · lines) (funext finding?_move)

theorem stateGroup_of_move (state : Located Ident) (transitions : List (Located TransitionLine)) :
    StateGroup.of (state.moveWith m (Located.move m)) (transitions.map (Located.moveWith m (TransitionLine.move m))) =
      (StateGroup.of state transitions).moveWith m (StateGroup.move m) := by
  simp only [StateGroup.of, List.foldl_map, Located.span_moveWith, Span.foldl_join_move]
  rfl

theorem groupLines_move (lines : List BlockLine) :
    groupLines (lines.map (BlockLine.move m)) =
      ((groupLines lines).1.map (Located.moveWith m (TransitionLine.move m)),
        (groupLines lines).2.map (Located.moveWith m (StateGroup.move m))) := by
  induction lines with
  | nil => rfl
  | cons line rest ih =>
    simp only [List.map_cons, groupLines, ih]
    cases line with
    | header state => simp only [BlockLine.move, stateGroup_of_move, List.map_nil, List.map_cons]
    | transition t => rfl
    | badHeader f => rfl
    | badTransition f => rfl

theorem readBlock_move {block : List Line} (h : KeepsOrder indent block) :
    readBlock (block.map (Line.move m indent)) = (readBlock block).map (BlockLine.move m) := by
  cases block with
  | nil => rfl
  | cons first rest =>
    have hread : ∀ line ∈ first :: rest,
        BlockLine.read (indent first.indent) (line.move m indent) = (BlockLine.read first.indent line).move m :=
      fun line hl => read_move (h _ List.mem_cons_self _ hl) (h _ hl _ List.mem_cons_self)
    rw [readBlock, List.map_map]
    exact (List.map_map ..).trans (List.map_congr_left hread)

/-! ## All lines -/

theorem append_move (a b : Reading) : (a ++ b).move m = a.move m ++ b.move m := by
  show Reading.mk ((a.sections ++ b.sections).map _) ((a.findings ++ b.findings).map _) = Reading.mk (_ ++ _) (_ ++ _)
  rw [List.map_append, List.map_append]
  rfl

theorem readList_move (line : Line) (label : Ident) (colon : Span) (tokens : List (Located Token)) :
    readList (line.move m indent) (label.move m) (colon.move m) (tokens.map (Located.move m)) =
      (readList line label colon tokens).move m := by
  simp only [readList, Line.stop_move, readNameList_move, Line.span_move]
  cases readNameList line.stop tokens with
  | error f => rfl
  | ok names =>
    simp only [moveResult, List.head?_map, List.getLast?_map]
    cases names.head? with
    | none => rfl
    | some first =>
      cases names.getLast? with
      | none => rfl
      | some last => simp [Reading.move, Located.moveWith, Section.move]

theorem readTransitions_move {block : List Line} (h : KeepsOrder indent block) (label : Span)
    (extra : List (Located Token)) :
    readTransitions (label.move m) (extra.map (Located.move m)) (block.map (Line.move m indent)) =
      (readTransitions label extra block).move m := by
  have hplace : (block.map (Line.move m indent)).foldl (fun place line => place.join line.span) (label.move m) =
      (block.foldl (fun place line => place.join line.span) label).move m := by
    simp only [List.foldl_map, Line.span_move, Span.foldl_join_move]
  simp only [readTransitions, hplace, readBlock_move h, groupLines_move, findings_move, Reading.move, List.map_append]
  cases extra <;> rfl

theorem opensTransitions_move (line : Line) : (line.move m indent).opensTransitions = line.opensTransitions := by
  rw [Bool.eq_iff_iff, Grammar.opensTransitions_iff, Grammar.opensTransitions_iff]
  simp only [Line.tokens_move, map_move_eq_cons]
  refine ⟨?_, ?_⟩
  · intro h
    obtain ⟨_, _, _, place, _, hl, -, colon, extra, rfl, -⟩ := h
    exact ⟨place, colon, extra, hl⟩
  · intro h
    obtain ⟨place, colon, extra, hl⟩ := h
    exact ⟨_, _, _, place, _, hl, rfl, colon, extra, rfl, rfl, rfl⟩

theorem readSection_move {block : List Line} (h : KeepsOrder indent block) (line : Line) :
    readSection (line.move m indent) (block.map (Line.move m indent)) = (readSection line block).move m := by
  simp only [readSection, Line.tokens_move, Line.span_move]
  generalize line.tokens = tokens
  split
  · next h' =>
    simp only [map_move_eq_cons] at h'
    obtain ⟨_, _, rfl, rfl, _, _, rfl, rfl, rfl⟩ := h'
    simp only
    split
    · exact readTransitions_move h _ _
    · exact readList_move line ⟨_, _⟩ _ _
  · next hne =>
    split
    · exact (hne _ _ _ _ rfl).elim
    · rfl

section Under

variable {line : Line} {rest : List Line}

theorem blockUnder_subset : blockUnder line rest ⊆ rest := List.takeWhile_subset _

theorem afterBlock_subset : afterBlock line rest ⊆ rest := (List.dropWhile_sublist _).subset

theorem blockUnder_move (h : KeepsOrder indent (line :: rest)) :
    blockUnder (line.move m indent) (rest.map (Line.move m indent)) =
        (blockUnder line rest).map (Line.move m indent) ∧
      afterBlock (line.move m indent) (rest.map (Line.move m indent)) =
        (afterBlock line rest).map (Line.move m indent) := by
  induction rest with
  | nil => exact ⟨rfl, rfl⟩
  | cons below rest ih =>
    have horder := h _ List.mem_cons_self _ (List.mem_cons_of_mem _ List.mem_cons_self)
    have ih := ih (h.subset (List.cons_subset_cons _ (List.subset_cons_self _ _)))
    unfold blockUnder afterBlock at ih ⊢
    by_cases hb : line.indent < below.indent
    · have hb' := horder.mpr hb
      simpa [hb, hb'] using ih
    · have hb' := mt horder.mp hb
      simp [hb, hb']

end Under

/-- Lines at other places, indented alike, are read as the same sections at other places,
    with the same findings. -/
theorem readSections_move {lines : List Line} (h : KeepsOrder indent lines) :
    readSections (lines.map (Line.move m indent)) = (readSections lines).move m := by
  fun_induction readSections lines with
  | case1 => rw [List.map_nil, readSections]; rfl
  | case2 line rest ho ih =>
    obtain ⟨hunder, hafter⟩ := @blockUnder_move m _ _ _ h
    rw [List.map_cons, readSections, if_pos ((opensTransitions_move line).trans ho), hunder, hafter,
      readSection_move (h.subset fun l hl => List.mem_cons_of_mem _ (blockUnder_subset hl)),
      ih (h.subset fun l hl => List.mem_cons_of_mem _ (afterBlock_subset hl)), append_move]
  | case3 line rest ho ih =>
    have hno : ¬ (line.move m indent).opensTransitions = true := (opensTransitions_move line).symm ▸ ho
    have hnil : readSection (line.move m indent) [] = (readSection line []).move m :=
      readSection_move (h.subset (List.nil_subset _)) line
    rw [List.map_cons, readSections, if_neg hno, hnil,
      ih (h.subset fun l hl => List.mem_cons_of_mem _ hl), append_move]

end Pushdown
