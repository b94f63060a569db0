/-
  Pushdown.Proofs.Section.Grammar — the grammar of definitions.

  The relations of `Grammar` say which lines make up sections, and which sections they
  are. A list stands on one line, at any indent. `transition_function:` takes the lines
  below it that are indented more, as far as they go. Of these the first sets the indent
  of headers: a header takes the deeper lines after it, each a transition, and no line is
  shallower.

  `readDefinition_by_grammar`: a definition is read without a finding, as some sections,
  exactly when no character is invalid and the lines of the text make up these sections.
  Whatever is found else is an error at a place on one of the lines
  (`errorAt_of_readSections`).
-/

import Pushdown.Proofs.Line
import Pushdown.Proofs.Report
import Pushdown.Section.Read

namespace Pushdown

namespace Grammar

/-! ## The grammar -/

/-- `name , name , ...`, at least one. -/
inductive Names : List (Located Token) → List Ident → Prop
  | one (name : String) (place : Span) : Names [⟨.word name, place⟩] [⟨name, place⟩]
  | more (name : String) (place comma : Span) {tokens : List (Located Token)} {names : List Ident} :
      Names tokens names →
      Names (⟨.word name, place⟩ :: ⟨.comma, comma⟩ :: tokens) (⟨name, place⟩ :: names)

/-- Names, or nothing. -/
inductive NameList : List (Located Token) → List Ident → Prop
  | none : NameList [] []
  | some {tokens : List (Located Token)} {names : List Ident} : Names tokens names → NameList tokens names

/-- `( letter , top ) -> next [ names ]` -/
inductive Transition : List (Located Token) → TransitionLine → Prop
  | mk (parOpen letterPlace comma topPlace parClose arrow nextPlace bracketOpen bracketClose : Span)
      (letter top next : String) {tokens : List (Located Token)} {push : List Ident} :
      NameList tokens push →
      Transition
        (⟨.parOpen, parOpen⟩ :: ⟨.word letter, letterPlace⟩ :: ⟨.comma, comma⟩ :: ⟨.word top, topPlace⟩ ::
          ⟨.parClose, parClose⟩ :: ⟨.arrow, arrow⟩ :: ⟨.word next, nextPlace⟩ :: ⟨.bracketOpen, bracketOpen⟩ ::
          (tokens ++ [⟨.bracketClose, bracketClose⟩]))
        ⟨⟨letter, letterPlace⟩, ⟨top, topPlace⟩, ⟨next, nextPlace⟩, ⟨push, bracketOpen.join bracketClose⟩⟩

/-- Transitions, each on a line indented more than `headerIndent`. -/
inductive Transitions (headerIndent : Nat) : List Line → List (Located TransitionLine) → Prop
  | nil : Transitions headerIndent [] []
  | cons {line : Line} {t : TransitionLine} {lines : List Line} {ts : List (Located TransitionLine)} :
      headerIndent < line.indent → Transition line.tokens t → Transitions headerIndent lines ts →
      Transitions headerIndent (line :: lines) (⟨t, line.span⟩ :: ts)

/-- Headers `state :`, each indented by `headerIndent` and with its transitions under it. -/
inductive Groups (headerIndent : Nat) : List Line → List (Located StateGroup) → Prop
  | nil : Groups headerIndent [] []
  | group {header : Line} {state : String} {place colon : Span} {body rest : List Line}
      {ts : List (Located TransitionLine)} {groups : List (Located StateGroup)} :
      header.indent = headerIndent → header.tokens = [⟨.word state, place⟩, ⟨.colon, colon⟩] →
      Transitions headerIndent body ts → Groups headerIndent rest groups →
      Groups headerIndent (header :: (body ++ rest))
        (StateGroup.of ⟨⟨state, place⟩, place.join colon⟩ ts :: groups)

/-- A block: nothing, or groups at the indent of its first line. -/
inductive Block : List Line → List (Located StateGroup) → Prop
  | empty : Block [] []
  | groups {first : Line} {rest : List Line} {groups : List (Located StateGroup)} :
      Groups first.indent (first :: rest) groups → Block (first :: rest) groups

/-- Where the names of a list stand: from the first to the last, or after the colon. -/
def namesPlace (colon : Span) (names : List Ident) : Span :=
  match names.head?, names.getLast? with
  | some first, some last => first.span.join last.span
  | _, _ => .point colon.stop

/-- From a label to the end of the block under it. -/
def blockPlace (label : Span) (block : List Line) : Span :=
  block.foldl (fun place line => place.join line.span) label

/-- Lines as sections. -/
inductive Sections : List Line → List (Located Section) → Prop
  | nil : Sections [] []
  | list {line : Line} {label : String} {place colon : Span} {tokens : List (Located Token)}
      {names : List Ident} {rest : List Line} {sections : List (Located Section)} :
      line.tokens = ⟨.word label, place⟩ :: ⟨.colon, colon⟩ :: tokens → label ≠ "transition_function" →
      NameList tokens names → Sections rest sections →
      Sections (line :: rest)
        (⟨.list ⟨label, place⟩ ⟨names, namesPlace colon names⟩, line.span⟩ :: sections)
  | transitions {line : Line} {place colon : Span} {block rest : List Line}
      {groups : List (Located StateGroup)} {sections : List (Located Section)} :
      line.tokens = [⟨.word "transition_function", place⟩, ⟨.colon, colon⟩] →
      (∀ below ∈ block, line.indent < below.indent) →
      (∀ next ∈ rest.head?, next.indent ≤ line.indent) →
      Block block groups → Sections rest sections →
      Sections (line :: (block ++ rest))
        (⟨.transitions ⟨"transition_function", place⟩ groups, blockPlace place block⟩ :: sections)

/-! ## One line -/

theorem readNames_eq_ok {stop : Span} {tokens : List (Located Token)} {names : List Ident} :
    readNames stop tokens = .ok names ↔ Names tokens names := by
  refine ⟨?_, ?_⟩
  · intro h
    fun_induction readNames stop tokens generalizing names with
    | case1 => simp at h
    | case2 name place =>
      obtain rfl : [⟨name, place⟩] = names := by simpa using h
      exact .one name place
    | case3 name place comma more ih =>
      cases hm : readNames stop more with
      | error f => simp [hm, Except.map] at h
      | ok rest =>
        obtain rfl : ⟨name, place⟩ :: rest = names := by simpa [hm, Except.map] using h
        exact .more name place comma (ih hm)
    | case4 => simp at h
    | case5 => simp at h
  · intro h
    induction h with
    | one name place => rfl
    | more name place comma _ ih => simp [readNames, ih, Except.map]

theorem readNameList_eq_ok {stop : Span} {tokens : List (Located Token)} {names : List Ident} :
    readNameList stop tokens = .ok names ↔ NameList tokens names := by
  unfold readNameList
  cases tokens with
  | nil =>
    refine ⟨?_, ?_⟩
    · intro h
      obtain rfl : [] = names := by simpa using h
      exact .none
    · intro h
      cases h with
      | none => rfl
      | some h => cases h
  | cons t rest =>
    rw [if_neg (by simp), readNames_eq_ok]
    refine ⟨?_, ?_⟩
    · exact .some
    · intro h
      cases h with
      | some h => exact h

/-- A list of names ends before any bracket. -/
theorem NameList.noBracket {tokens : List (Located Token)} {names : List Ident} (h : NameList tokens names) :
    ∀ t ∈ tokens, (t.value != .bracketClose) = true := by
  cases h with
  | none => simp
  | some h =>
    induction h with
    | one => simp
    | more name place comma _ ih =>
      intro t ht
      rcases List.mem_cons.mp ht with rfl | ht
      · rfl
      · rcases List.mem_cons.mp ht with rfl | ht
        · rfl
        · exact ih t ht

theorem map_eq_ok {ε α β : Type} {e : Except ε α} {f : α → β} {b : β} :
    e.map f = .ok b ↔ ∃ a, e = .ok a ∧ f a = b := by
  cases e <;> simp [Except.map]

theorem readReplacement_eq_ok {openBracket lineStop : Span} {tokens : List (Located Token)}
    {push : Located (List Ident)} :
    readReplacement openBracket lineStop tokens = .ok push ↔
      ∃ inner close, tokens = inner ++ [⟨.bracketClose, close⟩] ∧ NameList inner push.value ∧
        push.span = openBracket.join close := by
  refine ⟨?_, ?_⟩
  · intro h
    have hsplit := List.takeWhile_append_dropWhile (p := fun t : Located Token => t.value != .bracketClose)
      (l := tokens)
    have hhead := List.head?_dropWhile_not (fun t : Located Token => t.value != .bracketClose) tokens
    unfold readReplacement at h
    split at h
    · simp at h
    · next close after hd =>
      split at h
      · simp at h
      · obtain ⟨names, hn, rfl⟩ := map_eq_ok.mp h
        obtain ⟨bracket, place⟩ := close
        obtain rfl : bracket = .bracketClose := by simpa [hd] using hhead
        exact ⟨_, place, by rw [← hd, hsplit], readNameList_eq_ok.mp hn, rfl⟩
  · intro h
    obtain ⟨inner, close, rfl, hn, hp⟩ := h
    have hb := hn.noBracket
    unfold readReplacement
    rw [List.dropWhile_append_of_pos hb, List.takeWhile_append_of_pos hb]
    simp [readNameList_eq_ok.mpr hn, Except.map, ← hp]

theorem readTransition_eq_ok {line : Line} {t : Located TransitionLine} :
    readTransition line = .ok t ↔ Transition line.tokens t.value ∧ t.span = line.span := by
  refine ⟨?_, ?_⟩
  · intro h
    unfold readTransition at h
    split at h
    · next letter letterPlace comma top topPlace parClose arrow next nextPlace bracket rest hl =>
      obtain ⟨push, hr, rfl⟩ := map_eq_ok.mp h
      obtain ⟨inner, close, rfl, hn, hp⟩ := readReplacement_eq_ok.mp hr
      obtain ⟨names, place⟩ := push
      simp only at hp
      subst hp
      rw [hl]
      exact ⟨.mk _ _ _ _ _ _ _ _ _ _ _ _ hn, rfl⟩
    · simp at h
  · intro h
    obtain ⟨ht, hs⟩ := h
    obtain ⟨value, span⟩ := t
    simp only at ht hs
    subst hs
    unfold readTransition
    generalize line.tokens = tokens at ht
    cases ht with
    | mk _ _ _ _ _ _ _ bracketOpen bracketClose letter top next hn =>
      have hr := (@readReplacement_eq_ok bracketOpen line.stop _ ⟨_, bracketOpen.join bracketClose⟩).mpr
        ⟨_, bracketClose, rfl, hn, rfl⟩
      simp only
      rw [hr]
      rfl

theorem readHeader_eq_ok {line : Line} {state : Located Ident} :
    readHeader line = .ok state ↔ ∃ name place colon,
      line.tokens = [⟨.word name, place⟩, ⟨.colon, colon⟩] ∧ state = ⟨⟨name, place⟩, place.join colon⟩ := by
  refine ⟨?_, ?_⟩
  · intro h
    unfold readHeader at h
    split at h
    · next name place colon hl => exact ⟨name, place, colon, hl, by simpa using h.symm⟩
    · simp at h
  · intro h
    obtain ⟨name, place, colon, hl, rfl⟩ := h
    unfold readHeader
    rw [hl]

/-! ## A block -/

theorem read_eq_transition {headerIndent : Nat} {line : Line} {t : Located TransitionLine} :
    BlockLine.read headerIndent line = .transition t ↔
      headerIndent < line.indent ∧ readTransition line = .ok t := by
  unfold BlockLine.read
  by_cases hd : headerIndent < line.indent
  · rw [if_pos hd]
    cases readTransition line <;> simp [hd]
  · rw [if_neg hd]
    by_cases hs : line.indent < headerIndent
    · simp [hs, hd]
    · rw [if_neg hs]
      cases readHeader line <;> simp [hd]

theorem read_eq_header {headerIndent : Nat} {line : Line} {state : Located Ident} :
    BlockLine.read headerIndent line = .header state ↔
      line.indent = headerIndent ∧ readHeader line = .ok state := by
  unfold BlockLine.read
  by_cases hd : headerIndent < line.indent
  · have hne : line.indent ≠ headerIndent := by omega
    rw [if_pos hd]
    cases readTransition line <;> simp [hne]
  · rw [if_neg hd]
    by_cases hs : line.indent < headerIndent
    · have hne : line.indent ≠ headerIndent := by omega
      simp [hs, hne]
    · have he : line.indent = headerIndent := by omega
      rw [if_neg hs]
      cases readHeader line <;> simp [he]

/-- The lines of a block that are read without a finding: transitions that come before
    the first header, and groups. -/
theorem groupLines_sound {headerIndent : Nat} {lines : List Line}
    (h : (lines.map (BlockLine.read headerIndent)).filterMap BlockLine.finding? = []) :
    ∃ body rest, lines = body ++ rest ∧
      Transitions headerIndent body (groupLines (lines.map (BlockLine.read headerIndent))).1 ∧
      Groups headerIndent rest (groupLines (lines.map (BlockLine.read headerIndent))).2 := by
  induction lines with
  | nil => exact ⟨[], [], rfl, .nil, .nil⟩
  | cons line lines ih =>
    rw [List.map_cons, List.filterMap_cons] at h
    rw [List.map_cons]
    cases hr : BlockLine.read headerIndent line with
    | badHeader f => simp [hr, BlockLine.finding?] at h
    | badTransition f => simp [hr, BlockLine.finding?] at h
    | transition t =>
      obtain ⟨body, rest, rfl, hts, hgs⟩ := ih (by simpa [hr, BlockLine.finding?] using h)
      obtain ⟨hi, ht⟩ := read_eq_transition.mp hr
      obtain ⟨hform, hspan⟩ := readTransition_eq_ok.mp ht
      obtain ⟨value, span⟩ := t
      simp only at hform hspan
      subst hspan
      exact ⟨line :: body, rest, rfl, .cons hi hform hts, hgs⟩
    | header state =>
      obtain ⟨body, rest, rfl, hts, hgs⟩ := ih (by simpa [hr, BlockLine.finding?] using h)
      obtain ⟨hi, hh⟩ := read_eq_header.mp hr
      obtain ⟨name, place, colon, hl, rfl⟩ := readHeader_eq_ok.mp hh
      exact ⟨[], line :: (body ++ rest), rfl, .nil, .group hi hl hts hgs⟩

theorem Transitions.read {headerIndent : Nat} {body : List Line} {ts : List (Located TransitionLine)}
    (h : Transitions headerIndent body ts) :
    body.map (BlockLine.read headerIndent) = ts.map .transition := by
  induction h with
  | nil => rfl
  | @cons line t lines ts hi ht _ ih =>
    have hr : readTransition line = .ok ⟨t, line.span⟩ := readTransition_eq_ok.mpr ⟨ht, rfl⟩
    rw [List.map_cons, List.map_cons, ih, read_eq_transition.mpr ⟨hi, hr⟩]

theorem groupLines_transitions (ts : List (Located TransitionLine)) (lines : List BlockLine) :
    groupLines (ts.map .transition ++ lines) = (ts ++ (groupLines lines).1, (groupLines lines).2) := by
  induction ts with
  | nil => rfl
  | cons t ts ih => rw [List.map_cons, List.cons_append, groupLines, ih]; rfl

theorem findings_transitions (ts : List (Located TransitionLine)) :
    (ts.map BlockLine.transition).filterMap BlockLine.finding? = [] := by
  induction ts with
  | nil => rfl
  | cons t ts ih => rw [List.map_cons, List.filterMap_cons]; exact ih

theorem groupLines_complete {headerIndent : Nat} {lines : List Line} {groups : List (Located StateGroup)}
    (h : Groups headerIndent lines groups) :
    (lines.map (BlockLine.read headerIndent)).filterMap BlockLine.finding? = [] ∧
      groupLines (lines.map (BlockLine.read headerIndent)) = ([], groups) := by
  induction h with
  | nil => exact ⟨rfl, rfl⟩
  | group hi hl hts _ ih =>
    have hh := read_eq_header.mpr ⟨hi, readHeader_eq_ok.mpr ⟨_, _, _, hl, rfl⟩⟩
    rw [List.map_cons, List.map_append, hts.read, hh]
    refine ⟨?_, ?_⟩
    · rw [List.filterMap_cons, List.filterMap_append, findings_transitions, ih.1]
      rfl
    · rw [groupLines, groupLines_transitions, ih.2, List.append_nil]

theorem readBlock_iff {block : List Line} {groups : List (Located StateGroup)} :
    (readBlock block).filterMap BlockLine.finding? = [] ∧ (groupLines (readBlock block)).2 = groups ↔
      Block block groups := by
  refine ⟨?_, ?_⟩
  · intro h
    obtain ⟨hf, rfl⟩ := h
    cases block with
    | nil => exact .empty
    | cons first rest =>
      obtain ⟨body, others, he, hts, hgs⟩ := groupLines_sound hf
      generalize (groupLines _).1 = ts at hts
      -- the first line is as deep as headers are, so no transition comes before it
      cases hts with
      | nil => rw [List.nil_append] at he; subst he; exact .groups hgs
      | cons hi _ _ =>
        rw [List.cons_append, List.cons.injEq] at he
        rw [← he.1] at hi
        omega
  · intro h
    cases h with
    | empty => exact ⟨rfl, rfl⟩
    | groups hg =>
      obtain ⟨hf, hgs⟩ := groupLines_complete hg
      exact ⟨hf, by rw [readBlock, hgs]⟩

/-! ## All lines -/

theorem append_eq_iff {a b : Reading} {sections : List (Located Section)} :
    a ++ b = ⟨sections, []⟩ ↔
      ∃ before after, a = ⟨before, []⟩ ∧ b = ⟨after, []⟩ ∧ sections = before ++ after := by
  obtain ⟨sa, fa⟩ := a
  obtain ⟨sb, fb⟩ := b
  show Reading.mk (sa ++ sb) (fa ++ fb) = _ ↔ _
  refine ⟨?_, ?_⟩
  · intro h
    obtain ⟨rfl, hf⟩ := (Reading.mk.injEq ..).mp h
    obtain ⟨rfl, rfl⟩ := List.append_eq_nil_iff.mp hf
    exact ⟨sa, sb, rfl, rfl, rfl⟩
  · intro h
    obtain ⟨before, after, ha, hb, rfl⟩ := h
    cases ha
    cases hb
    rfl

theorem readList_eq_iff {line : Line} {label : Ident} {colon : Span} {tokens : List (Located Token)}
    {sections : List (Located Section)} :
    readList line label colon tokens = ⟨sections, []⟩ ↔
      ∃ names, NameList tokens names ∧
        sections = [⟨.list label ⟨names, namesPlace colon names⟩, line.span⟩] := by
  unfold readList
  cases hr : readNameList line.stop tokens with
  | error f =>
    simp only [Reading.mk.injEq, List.cons_ne_nil, and_false, false_iff, not_exists, not_and]
    intro names hn
    rw [readNameList_eq_ok.mpr hn] at hr
    cases hr
  | ok names =>
    refine ⟨?_, ?_⟩
    · intro h
      exact ⟨names, readNameList_eq_ok.mp hr, ((Reading.mk.injEq ..).mp h).1.symm⟩
    · intro h
      obtain ⟨others, hn, rfl⟩ := h
      obtain rfl : names = others := by
        rw [readNameList_eq_ok.mpr hn] at hr
        exact (Except.ok.inj hr).symm
      rfl

theorem readTransitions_eq_iff {label : Span} {extra : List (Located Token)} {block : List Line}
    {sections : List (Located Section)} :
    readTransitions label extra block = ⟨sections, []⟩ ↔
      extra = [] ∧ ∃ groups, Block block groups ∧
        sections = [⟨.transitions ⟨"transition_function", label⟩ groups, blockPlace label block⟩] := by
  unfold readTransitions
  refine ⟨?_, ?_⟩
  · intro h
    obtain ⟨hs, hf⟩ := (Reading.mk.injEq ..).mp h
    obtain ⟨hextra, hblock⟩ := List.append_eq_nil_iff.mp hf
    refine ⟨?_, _, readBlock_iff.mp ⟨hblock, rfl⟩, hs.symm⟩
    cases extra with
    | nil => rfl
    | cons t rest => simp at hextra
  · intro h
    obtain ⟨rfl, groups, hb, rfl⟩ := h
    obtain ⟨hf, hg⟩ := readBlock_iff.mpr hb
    simp only [List.head?_nil, Option.map_none, Option.toList_none, List.nil_append, hf, hg]
    rfl

/-- Where a line opens the section of transitions. -/
theorem opensTransitions_iff {line : Line} :
    line.opensTransitions = true ↔ ∃ place colon extra,
      line.tokens = ⟨.word "transition_function", place⟩ :: ⟨.colon, colon⟩ :: extra := by
  unfold Line.opensTransitions
  refine ⟨?_, ?_⟩
  · intro h
    split at h
    · next name place colon extra hl =>
      obtain rfl : name = "transition_function" := by simpa [SectionKind.label] using h
      exact ⟨place, colon, extra, hl⟩
    · cases h
  · intro h
    obtain ⟨place, colon, extra, hl⟩ := h
    rw [hl]
    rfl

theorem blockUnder_append_afterBlock (line : Line) (rest : List Line) :
    blockUnder line rest ++ afterBlock line rest = rest :=
  List.takeWhile_append_dropWhile

theorem lt_of_mem_blockUnder (line : Line) (rest : List Line) :
    ∀ below ∈ blockUnder line rest, line.indent < below.indent := by
  intro below hm
  simpa using List.all_eq_true.mp List.all_takeWhile below hm

theorem le_of_head?_afterBlock (line : Line) (rest : List Line) :
    ∀ next ∈ (afterBlock line rest).head?, next.indent ≤ line.indent := by
  intro next hm
  have := List.head?_dropWhile_not (fun below : Line => decide (line.indent < below.indent)) rest
  rw [afterBlock] at hm
  simpa [Option.mem_def.mp hm] using this

theorem readSections_sound {lines : List Line} {sections : List (Located Section)}
    (h : readSections lines = ⟨sections, []⟩) : Sections lines sections := by
  fun_induction readSections lines generalizing sections with
  | case1 =>
    obtain rfl : [] = sections := ((Reading.mk.injEq ..).mp h).1
    exact .nil
  | case2 line rest ho ih =>
    obtain ⟨place, colon, extra, hl⟩ := opensTransitions_iff.mp ho
    obtain ⟨before, after, hb, ha, rfl⟩ := append_eq_iff.mp h
    rw [readSection, hl] at hb
    obtain ⟨rfl, groups, hblock, rfl⟩ := readTransitions_eq_iff.mp hb
    have hs := Sections.transitions hl (lt_of_mem_blockUnder line rest) (le_of_head?_afterBlock line rest) hblock (ih ha)
    rwa [blockUnder_append_afterBlock] at hs
  | case3 line rest ho ih =>
    obtain ⟨before, after, hb, ha, rfl⟩ := append_eq_iff.mp h
    unfold readSection at hb
    split at hb
    · next name label colon tokens hl =>
      have hne : name ≠ "transition_function" := by
        intro h
        subst h
        exact ho (opensTransitions_iff.mpr ⟨label, colon, tokens, hl⟩)
      rw [if_neg (by exact hne)] at hb
      obtain ⟨names, hn, rfl⟩ := readList_eq_iff.mp hb
      exact .list hl hne hn (ih ha)
    · simp at hb

theorem takeWhile_block {line : Line} {block rest : List Line} (hblock : ∀ below ∈ block, line.indent < below.indent)
    (hrest : ∀ next ∈ rest.head?, next.indent ≤ line.indent) :
    blockUnder line (block ++ rest) = block ∧ afterBlock line (block ++ rest) = rest := by
  have hb : ∀ below ∈ block, decide (line.indent < below.indent) = true := by simpa using hblock
  unfold blockUnder afterBlock
  rw [List.takeWhile_append_of_pos hb, List.dropWhile_append_of_pos hb]
  cases rest with
  | nil => simp
  | cons next others =>
    have hn : ¬ line.indent < next.indent := Nat.not_lt.mpr (hrest next rfl)
    simp [hn]

theorem readSections_complete {lines : List Line} {sections : List (Located Section)}
    (h : Sections lines sections) : readSections lines = ⟨sections, []⟩ := by
  induction h with
  | nil => rw [readSections]; rfl
  | @list line label place colon tokens names rest sections hl hne hn _ ih =>
    have ho : ¬ line.opensTransitions = true := by
      intro ho
      obtain ⟨p, c, e, hl'⟩ := opensTransitions_iff.mp ho
      rw [hl] at hl'
      simp only [List.cons.injEq, Located.mk.injEq, Token.word.injEq] at hl'
      exact hne hl'.1.1
    rw [readSections, if_neg ho, append_eq_iff]
    refine ⟨[_], sections, ?_, ih, rfl⟩
    rw [readSection, hl]
    simp only
    rw [if_neg (by exact hne)]
    exact readList_eq_iff.mpr ⟨names, hn, rfl⟩
  | @transitions line place colon block rest groups sections hl hblock hrest hg _ ih =>
    obtain ⟨hu, ha⟩ := takeWhile_block hblock hrest
    rw [readSections, if_pos (opensTransitions_iff.mpr ⟨place, colon, [], hl⟩), hu, ha, append_eq_iff]
    refine ⟨[_], sections, ?_, ih, rfl⟩
    rw [readSection, hl]
    exact readTransitions_eq_iff.mpr ⟨rfl, groups, hg, rfl⟩

theorem readSections_eq_iff {lines : List Line} {sections : List (Located Section)} :
    readSections lines = ⟨sections, []⟩ ↔ Sections lines sections :=
  ⟨readSections_sound, readSections_complete⟩

/-! ## Every finding is an error on one of the lines -/

/-- All places of a line that something may be found wrong with are of some kind. -/
structure PlacesIn (P : Span → Prop) (line : Line) : Prop where
  span : P line.span
  stop : P line.stop
  token : ∀ t ∈ line.tokens, P t.span
  start : ∀ t ∈ line.tokens, P (.point t.span.start)

section Errors

variable {P : Span → Prop} {f : Finding} {line : Line}

theorem map_eq_error {ε α β : Type} {e : Except ε α} {g : α → β} {err : ε} :
    e.map g = .error err ↔ e = .error err := by
  cases e <;> simp [Except.map]

theorem readAt_of_readNameList {stop : Span} {tokens : List (Located Token)} (hstop : P stop)
    (ht : ∀ t ∈ tokens, P t.span) (h : readNameList stop tokens = .error f) : f.ReadAt P := by
  unfold readNameList at h
  split at h
  · cases h
  · fun_induction readNames stop tokens with
    | case1 =>
      cases h
      exact readAt_here (by trivial) hstop
    | case2 => cases h
    | case3 name place comma more ih =>
      have hm := map_eq_error.mp h
      cases more with
      | nil =>
        cases hm
        exact readAt_here (by trivial) hstop
      | cons t rest => exact ih (fun u hu => ht u (.tail _ (.tail _ hu))) (by simp) hm
    | case4 name place got elsewhere rest =>
      cases h
      exact readAt_here (by trivial) (ht ⟨got, elsewhere⟩ (.tail _ (.head _)))
    | case5 got place rest =>
      cases h
      exact readAt_here (by trivial) (ht ⟨got, place⟩ (.head _))

theorem readAt_of_readReplacement {openBracket lineStop : Span} {tokens : List (Located Token)} (hstop : P lineStop)
    (ht : ∀ t ∈ tokens, P t.span) (hs : ∀ t ∈ tokens, P (.point t.span.start))
    (h : readReplacement openBracket lineStop tokens = .error f) : f.ReadAt P := by
  have hbefore : ∀ t ∈ tokens.takeWhile (·.value != .bracketClose), t ∈ tokens := List.takeWhile_subset _
  have hafter : ∀ t ∈ tokens.dropWhile (·.value != .bracketClose), t ∈ tokens := (List.dropWhile_sublist _).subset
  unfold readReplacement at h
  split at h
  · cases h
    exact readAt_here (by trivial) hstop
  · next close after hd =>
    rw [hd] at hafter
    split at h
    · next extra rest =>
      cases h
      exact readAt_here (by trivial) (ht extra (hafter extra (.tail _ (.head _))))
    · exact readAt_of_readNameList (hs close (hafter close (.head _))) (fun t h => ht t (hbefore t h))
        (map_eq_error.mp h)

theorem readAt_of_readTransition (hl : PlacesIn P line) (h : readTransition line = .error f) : f.ReadAt P := by
  unfold readTransition at h
  split at h
  · next rest htokens =>
    have hrest : ∀ t ∈ rest, t ∈ line.tokens := by
      intro t ht
      simp [htokens, ht]
    refine readAt_of_readReplacement hl.stop ?_ ?_ (map_eq_error.mp h)
    · intro t ht
      exact hl.token t (hrest t ht)
    · intro t ht
      exact hl.start t (hrest t ht)
  · cases h
    exact readAt_here (by trivial) hl.span

theorem readAt_of_readHeader (hl : PlacesIn P line) (h : readHeader line = .error f) : f.ReadAt P := by
  unfold readHeader at h
  split at h
  · cases h
  · cases h
    exact readAt_here (by trivial) hl.span

theorem readAt_of_read {headerIndent : Nat} (hl : PlacesIn P line)
    (h : (BlockLine.read headerIndent line).finding? = some f) : f.ReadAt P := by
  unfold BlockLine.read at h
  split at h
  · split at h
    · cases h
    · next g hr =>
      cases h
      exact readAt_of_readTransition hl hr
  · split at h
    · cases h
      exact readAt_here (by trivial) hl.span
    · split at h
      · cases h
      · next g hr =>
        cases h
        exact readAt_of_readHeader hl hr

theorem exists_line_of_mem_readBlock {block : List Line} {read : BlockLine} (h : read ∈ readBlock block) :
    ∃ headerIndent, ∃ l ∈ block, BlockLine.read headerIndent l = read := by
  cases block with
  | nil => cases h
  | cons first rest => exact ⟨first.indent, List.mem_map.mp h⟩

theorem readAt_of_readSection {block : List Line} (hl : ∀ l ∈ line :: block, PlacesIn P l)
    (h : f ∈ (readSection line block).findings) : f.ReadAt P := by
  obtain ⟨hline, hblock⟩ := List.forall_mem_cons.mp hl
  unfold readSection at h
  split at h
  · next name label colon tokens htokens =>
    have hrest : ∀ t ∈ tokens, P t.span := by
      intro t ht
      exact hline.token t (by simp [htokens, ht])
    split at h
    · simp only [readTransitions, List.mem_append, Option.mem_toList, Option.map_eq_some_iff, List.mem_filterMap] at h
      rcases h with ⟨t, ht, rfl⟩ | ⟨read, hm, hf⟩
      · exact readAt_here (by trivial) (hrest t (List.mem_of_head? ht))
      · obtain ⟨headerIndent, below, hbelow, rfl⟩ := exists_line_of_mem_readBlock hm
        exact readAt_of_read (hblock below hbelow) hf
    · unfold readList at h
      split at h
      · next g hn =>
        obtain rfl : f = g := by simpa using h
        exact readAt_of_readNameList hline.stop hrest hn
      · cases h
  · obtain rfl := List.mem_singleton.mp h
    exact readAt_here (by trivial) hline.span

theorem readAt_of_readSections {lines : List Line} (hl : ∀ l ∈ lines, PlacesIn P l)
    (h : f ∈ (readSections lines).findings) : f.ReadAt P := by
  fun_induction readSections lines with
  | case1 => cases h
  | case2 line rest _ ih =>
    rcases List.mem_append.mp h with h | h
    · refine readAt_of_readSection ?_ h
      intro l hmem
      exact hl l (List.cons_subset_cons _ (List.takeWhile_subset _) hmem)
    · exact ih (fun l hmem => hl l (.tail _ ((List.dropWhile_sublist _).subset hmem))) h
  | case3 line rest _ ih =>
    rcases List.mem_append.mp h with h | h
    · exact readAt_of_readSection (fun l hmem => hl l (List.cons_subset_cons _ (List.nil_subset _) hmem)) h
    · exact ih (fun l hmem => hl l (.tail _ hmem)) h

theorem isError_of_readSections {lines : List Line} (h : f ∈ (readSections lines).findings) : f.isError = true :=
  (readAt_of_readSections (P := fun _ => True) (fun _ _ => ⟨trivial, trivial, by simp, by simp⟩) h).errorAt.isError

end Errors

end Grammar

/-! ## A whole definition -/

open Grammar Text

/-- Whatever reading finds is an error. -/
theorem isError_of_readDefinition {source : String} {f : Finding}
    (h : f ∈ (readDefinition source).findings) : f.isError = true := by
  rcases List.mem_append.mp h with h | h
  · obtain ⟨c, -, rfl⟩ := List.mem_map.mp h
    rfl
  · exact isError_of_readSections h

theorem readDefinition_findings_eq_nil {source : String} :
    (readDefinition source).findings = [] ↔ (readDefinition source).findings.any Finding.isError = false := by
  refine ⟨?_, ?_⟩
  · intro h
    rw [h]
    rfl
  · intro h
    rw [List.eq_nil_iff_forall_not_mem]
    intro f hf
    have := List.any_eq_false.mp h f hf
    exact this (isError_of_readDefinition hf)

/-- A definition is read as some sections, without a finding, exactly when every character
    belongs to a token and the lines of the text make up these sections. -/
theorem readDefinition_eq {source : String} {sections : List (Located Section)} :
    readDefinition source = ⟨sections, []⟩ ↔
      invalidChars (scan source) = [] ∧
        Sections (layout 0 (terminatedLines source.toList)) sections := by
  unfold readDefinition
  refine ⟨?_, ?_⟩
  · intro h
    obtain ⟨before, after, hb, ha, rfl⟩ := append_eq_iff.mp h
    obtain ⟨rfl, hv⟩ := (Reading.mk.injEq ..).mp hb
    have hv' : invalidChars (scan source) = [] := by simpa using hv
    exact ⟨hv', linesOf_scan hv' ▸ readSections_eq_iff.mp ha⟩
  · intro h
    obtain ⟨hv, hs⟩ := h
    rw [← linesOf_scan hv] at hs
    exact append_eq_iff.mpr ⟨[], sections, by simp [hv], readSections_eq_iff.mpr hs, rfl⟩

/-- Reading finds no error exactly when every character belongs to a token and the lines
    of the text are written by the grammar; what is read then are the sections that the
    grammar gives. -/
theorem readDefinition_by_grammar (source : String) :
    ((readDefinition source).findings.any Finding.isError = false ↔
      invalidChars (scan source) = [] ∧
        ∃ sections, Sections (layout 0 (terminatedLines source.toList)) sections) ∧
    ∀ sections, readDefinition source = ⟨sections, []⟩ ↔
      invalidChars (scan source) = [] ∧
        Sections (layout 0 (terminatedLines source.toList)) sections := by
  refine ⟨?_, fun sections => readDefinition_eq⟩
  rw [← readDefinition_findings_eq_nil]
  refine ⟨?_, ?_⟩
  · intro h
    obtain ⟨hv, hs⟩ := readDefinition_eq.mp (show readDefinition source = ⟨_, []⟩ by rw [← h])
    exact ⟨hv, _, hs⟩
  · intro h
    obtain ⟨hv, sections, hs⟩ := h
    rw [readDefinition_eq.mpr ⟨hv, hs⟩]

end Pushdown
