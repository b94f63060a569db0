/-
  Pushdown.Proofs.Section.Account — what becomes of every line.

  A line that says something becomes one node, or one error lies on it, or it is a
  transition under a line that should have been a header and was not (`HeadAccount`,
  `BlockAccount`). Only a first line of a block that goes on after its colon is both.
  `readSections_accounts`: this is so of every line of every text, and what is read from
  the text are the nodes and the errors of its lines, in their order.

  Lines are followed one by one, with the header that is open above them (`blockFates`).
  As a line feed stands between any two lines, what lies on a line is what was made of it
  (`FatesOf.nodesIn`, `FatesOf.findingsIn`).
-/

import Mathlib.Data.List.Basic
import Mathlib.Data.List.Induction
import Pushdown.Proofs.Section.Place

namespace Pushdown

open Grammar

/-! ## Nodes -/

/-- What a line may become. -/
inductive Node where
  /-- A list; its place is that of the section. -/
  | list (label : Ident) (items : Located (List Ident)) (place : Span)
  /-- The label of a block of transitions. -/
  | block (label : Ident)
  | header (state : Ident)
  /-- A transition in the group of a header. -/
  | transition (state : Ident) (t : Located TransitionLine)
  deriving DecidableEq, Repr

def Node.place : Node → Span
  | list _ _ place => place
  | block label => label.span
  | header state => state.span
  | transition _ t => t.span

def StateGroup.nodes (g : StateGroup) : List Node := .header g.state :: g.transitions.map (.transition g.state)

def Section.nodes (s : Located Section) : List Node :=
  match s.value with
  | .list label items => [.list label items s.span]
  | .transitions label groups => .block label :: groups.flatMap fun g => g.value.nodes

/-- All nodes, in the order of the sections. -/
def Reading.nodes (r : Reading) : List Node := r.sections.flatMap Section.nodes

/-! ## What lies on a line -/

namespace Line

/-- Whether a place lies on the line. -/
def holds (l : Line) (s : Span) : Bool := l.span.start ≤ s.start && s.start ≤ s.stop && s.stop ≤ l.span.stop

def nodesIn (l : Line) (r : Reading) : List Node := r.nodes.filter fun n => l.holds n.place

def findingsIn (l : Line) (r : Reading) : List Finding := r.findings.filter fun f => f.place.any l.holds

/-- One node was made of the line, and nothing was found wrong on it. -/
structure Became (l : Line) (r : Reading) (n : Node) : Prop where
  nodes : l.nodesIn r = [n]
  findings : l.findingsIn r = []

/-- One thing was found wrong on the line, and nothing was made of it. -/
structure Refused (l : Line) (r : Reading) : Prop where
  nodes : l.nodesIn r = []
  findings : ∃ f, l.findingsIn r = [f]

/-- Nothing was made of the line, and nothing was found wrong on it. -/
structure Dropped (l : Line) (r : Reading) : Prop where
  nodes : l.nodesIn r = []
  findings : l.findingsIn r = []

end Line

/-! ## The account of a line -/

/-- Lines that begin sections, each with the lines of its block: what is indented more
    under a line that opens the transitions. -/
inductive Parts : List Line → List (Line × List Line) → Prop
  | nil : Parts [] []
  | line {line : Line} {rest : List Line} {parts : List (Line × List Line)} :
      line.opensTransitions = false → Parts rest parts → Parts (line :: rest) ((line, []) :: parts)
  | block {line : Line} {block rest : List Line} {parts : List (Line × List Line)} :
      line.opensTransitions = true → (∀ below ∈ block, line.indent < below.indent) →
      (∀ next ∈ rest.head?, next.indent ≤ line.indent) → Parts rest parts →
      Parts (line :: (block ++ rest)) ((line, block) :: parts)

/-- The line that a transition is under: the last above it that is no deeper than headers. -/
def headerLine? (headerIndent : Nat) (above : List Line) : Option Line :=
  (above.filter fun l => l.indent ≤ headerIndent).getLast?

/-- What becomes of a line that is in no block. -/
inductive HeadAccount (r : Reading) (l : Line) : Prop
  | list {label : String} {place colon : Span} {tokens : List (Located Token)} {names : List Ident}
      (form : l.tokens = ⟨.word label, place⟩ :: ⟨.colon, colon⟩ :: tokens) (ne : label ≠ "transition_function")
      (items : NameList tokens names)
      (became : l.Became r (.list ⟨label, place⟩ ⟨names, namesPlace colon names⟩ l.span))
  | block {place colon : Span} (form : l.tokens = [⟨.word "transition_function", place⟩, ⟨.colon, colon⟩])
      (became : l.Became r (.block ⟨"transition_function", place⟩))
  | trailing {place colon : Span} {extra : List (Located Token)}
      (form : l.tokens = ⟨.word "transition_function", place⟩ :: ⟨.colon, colon⟩ :: extra) (ne : extra ≠ [])
      (nodes : l.nodesIn r = [.block ⟨"transition_function", place⟩]) (finding : ∃ f, l.findingsIn r = [f])
  | refused (refused : l.Refused r)

/-- What becomes of a line of a block under other lines of the block. -/
inductive BlockAccount (r : Reading) (headerIndent : Nat) (above : List Line) (l : Line) : Prop
  | header {state : String} {place colon : Span} (depth : l.indent = headerIndent)
      (form : l.tokens = [⟨.word state, place⟩, ⟨.colon, colon⟩]) (became : l.Became r (.header ⟨state, place⟩))
  | transition {t : TransitionLine} {header : Line} {state : Ident} (depth : headerIndent < l.indent)
      (form : Transition l.tokens t) (under : headerLine? headerIndent above = some header)
      (opened : header.Became r (.header state)) (became : l.Became r (.transition state ⟨t, l.span⟩))
  | refused (refused : l.Refused r)
  | dropped {t : TransitionLine} {header : Line} (depth : headerIndent < l.indent) (form : Transition l.tokens t)
      (under : headerLine? headerIndent above = some header) (closed : header.Refused r) (dropped : l.Dropped r)

/-- Every line is accounted for. -/
structure Accounts (lines : List Line) (parts : List (Line × List Line)) (r : Reading) : Prop where
  split : Parts lines parts
  /-- All lines are read once, in their order. -/
  once : parts.flatMap (fun p => p.1 :: p.2) = lines
  nodes : r.nodes = lines.flatMap (Line.nodesIn · r)
  findings : r.findings = lines.flatMap (Line.findingsIn · r)
  heads : ∀ p ∈ parts, HeadAccount r p.1
  blocks : ∀ p ∈ parts, ∀ first ∈ p.2.head?, ∀ above l below, p.2 = above ++ l :: below →
    BlockAccount r first.indent above l

/-! ## The fates of lines -/

/-- What was made of a line and what was found wrong on it. -/
structure Fate where
  line : Line
  nodes : List Node
  findings : List Finding

/-- Everything in a fate lies on its line. -/
structure Fate.Fits (fate : Fate) : Prop where
  nodes : ∀ n ∈ fate.nodes, fate.line.holds n.place = true
  findings : ∀ f ∈ fate.findings, f.place.any fate.line.holds = true

namespace BlockLine

/-- The header that is open below a line. -/
def opened (under : Option Ident) : BlockLine → Option Ident
  | header state => some state.value
  | transition _ => under
  | badHeader _ => none
  | badTransition _ => under

/-- What a line becomes under a header. -/
def nodes (under : Option Ident) : BlockLine → List Node
  | header state => [.header state.value]
  | transition t => (under.map (.transition · t)).toList
  | badHeader _ => []
  | badTransition _ => []

end BlockLine

/-- The header that is open below some lines. -/
def openBelow (headerIndent : Nat) (under : Option Ident) (lines : List Line) : Option Ident :=
  lines.foldl (fun under l => (BlockLine.read headerIndent l).opened under) under

def blockFate (headerIndent : Nat) (under : Option Ident) (l : Line) : Fate :=
  ⟨l, (BlockLine.read headerIndent l).nodes under, (BlockLine.read headerIndent l).finding?.toList⟩

/-- The fates of the lines of a block, under a header. -/
def blockFates (headerIndent : Nat) (under : Option Ident) : List Line → List Fate
  | [] => []
  | l :: rest =>
    blockFate headerIndent under l :: blockFates headerIndent ((BlockLine.read headerIndent l).opened under) rest

/-- The fates of a line that begins a section and of the lines of its block. -/
def partFates (p : Line × List Line) : List Fate :=
  ⟨p.1, (readSection p.1 []).nodes, (readSection p.1 []).findings⟩ ::
    match p.2 with
    | [] => []
    | first :: rest => blockFates first.indent none (first :: rest)

variable {line l l' : Line} {block lines above below : List Line} {headerIndent : Nat} {under : Option Ident}

/-! ## A block -/

theorem blockFates_append (headerIndent : Nat) (under : Option Ident) (above below : List Line) :
    blockFates headerIndent under (above ++ below) =
      blockFates headerIndent under above ++ blockFates headerIndent (openBelow headerIndent under above) below := by
  induction above generalizing under with
  | nil => rfl
  | cons l above ih =>
    rw [List.cons_append, blockFates, ih]
    rfl

theorem lines_blockFates (headerIndent : Nat) (under : Option Ident) (lines : List Line) :
    (blockFates headerIndent under lines).map Fate.line = lines := by
  induction lines generalizing under with
  | nil => rfl
  | cons l rest ih => rw [blockFates, List.map_cons, ih]; rfl

/-- The nodes of the lines of a block are the transitions under the header above them and
    the groups. -/
theorem nodes_blockFates (headerIndent : Nat) (under : Option Ident) (lines : List Line) :
    (blockFates headerIndent under lines).flatMap Fate.nodes =
      (under.toList.flatMap fun state =>
        (groupLines (lines.map (BlockLine.read headerIndent))).1.map (.transition state)) ++
      (groupLines (lines.map (BlockLine.read headerIndent))).2.flatMap fun g => g.value.nodes := by
  induction lines generalizing under with
  | nil => cases under <;> rfl
  | cons l rest ih =>
    rw [blockFates, List.flatMap_cons, ih, List.map_cons, blockFate]
    cases BlockLine.read headerIndent l with
    | header state =>
      cases under <;> simp [BlockLine.opened, BlockLine.nodes, groupLines, StateGroup.nodes, StateGroup.of]
    | transition t => cases under <;> simp [BlockLine.opened, BlockLine.nodes, groupLines]
    | badHeader f => cases under <;> simp [BlockLine.opened, BlockLine.nodes, groupLines]
    | badTransition f => cases under <;> simp [BlockLine.opened, BlockLine.nodes, groupLines]

theorem findings_blockFates (headerIndent : Nat) (under : Option Ident) (lines : List Line) :
    (blockFates headerIndent under lines).flatMap Fate.findings =
      (lines.map (BlockLine.read headerIndent)).filterMap BlockLine.finding? := by
  induction lines generalizing under with
  | nil => rfl
  | cons l rest ih =>
    rw [blockFates, List.flatMap_cons, ih, List.map_cons, List.filterMap_cons, blockFate]
    cases (BlockLine.read headerIndent l).finding? <;> rfl

/-- A line that is no deeper than headers is one, or an error. -/
theorem read_of_le (h : l.indent ≤ headerIndent) :
    (∃ state, BlockLine.read headerIndent l = .header state) ∨ ∃ f, BlockLine.read headerIndent l = .badHeader f := by
  unfold BlockLine.read
  rw [if_neg (by omega)]
  split
  · exact .inr ⟨_, rfl⟩
  · cases readHeader l with
    | ok state => exact .inl ⟨state, rfl⟩
    | error f => exact .inr ⟨f, rfl⟩

/-- A deeper one is a transition, or an error. -/
theorem read_of_lt (h : headerIndent < l.indent) :
    (∃ t, BlockLine.read headerIndent l = .transition t) ∨ ∃ f, BlockLine.read headerIndent l = .badTransition f := by
  unfold BlockLine.read
  rw [if_pos h]
  cases readTransition l with
  | ok t => exact .inl ⟨t, rfl⟩
  | error f => exact .inr ⟨f, rfl⟩

/-- Which header is open below some lines is decided by the last that is no deeper than
    headers. -/
theorem openBelow_eq (headerIndent : Nat) (lines : List Line) :
    openBelow headerIndent none lines =
      (headerLine? headerIndent lines).bind fun header => (BlockLine.read headerIndent header).opened none := by
  induction lines using List.reverseRecOn with
  | nil => rfl
  | append_singleton above l ih =>
    rw [openBelow, List.foldl_append, List.foldl_cons, List.foldl_nil, ← openBelow, ih]
    conv => rhs; rw [headerLine?, List.filter_append]
    by_cases h : l.indent ≤ headerIndent
    · rw [List.filter_cons_of_pos (by simpa using h), List.filter_nil, List.getLast?_concat, Option.bind_some]
      rcases read_of_le h with ⟨state, hr⟩ | ⟨f, hr⟩ <;> rw [hr] <;> rfl
    · rw [List.filter_cons_of_neg (by simpa using h), List.filter_nil, List.append_nil, ← headerLine?]
      rcases read_of_lt (Nat.lt_of_not_le h) with ⟨t, hr⟩ | ⟨f, hr⟩ <;> rw [hr] <;> rfl

/-! ## Everything lies on its line -/

theorem holds_of_hasPlace (ho : l.InOrder) {s : Span} (h : l.HasPlace s) : l.holds s = true := by
  have hmark : ∀ i, l.HasMark i → l.span.start ≤ i ∧ i ≤ l.span.stop := by
    intro i hi
    obtain ⟨t, ht, hit⟩ := hi
    have hin := ho.holds.encloses t.span (List.mem_map_of_mem ht)
    have hle := ho.holds.row.le t.span (List.mem_map_of_mem ht)
    rcases hit with rfl | rfl <;> omega
  have hstart := hmark _ h.start
  have hstop := hmark _ h.stop
  have hle := h.le
  simp only [Line.holds, Bool.and_eq_true, decide_eq_true_eq]
  omega

/-- Two lines that stand apart hold no place both. -/
theorem holds_apart (h : l.span.stop < l'.span.start) (s : Span) : ¬ (l.holds s = true ∧ l'.holds s = true) := by
  simp only [Line.holds, Bool.and_eq_true, decide_eq_true_eq]
  omega

/-- All that may be found wrong with a line lies on it. -/
theorem placesIn_line (ho : l.InOrder) : PlacesIn (fun s => l.holds s = true) l := by
  refine ⟨?_, ?_, ?_, ?_⟩
  · exact holds_of_hasPlace ho ho.hasPlace_span
  · exact holds_of_hasPlace ho ho.hasPlace_span.atStop
  · intro t ht
    exact holds_of_hasPlace ho (ho.hasPlace ht)
  · intro t ht
    exact holds_of_hasPlace ho (ho.hasPlace ht).atStart

theorem any_of_errorAt {P : Span → Bool} {f : Finding} (h : f.ErrorAt fun s => P s = true) : f.place.any P = true := by
  obtain ⟨p, place, rfl, -, -, hplace⟩ := h
  exact hplace

theorem fits_blockFate (ho : l.InOrder) (headerIndent : Nat) (under : Option Ident) :
    (blockFate headerIndent under l).Fits := by
  refine ⟨?_, ?_⟩
  · intro n hn
    show l.holds n.place = true
    rw [blockFate] at hn
    cases hr : BlockLine.read headerIndent l with
    | header state =>
      obtain rfl : n = .header state.value := by simpa [hr, BlockLine.nodes] using hn
      exact holds_of_hasPlace ho (ho.hasPlace (header_of_read hr).2)
    | transition t =>
      obtain ⟨state, -, rfl⟩ : ∃ state, under = some state ∧ .transition state t = n := by
        simpa [hr, BlockLine.nodes] using hn
      show l.holds t.span = true
      rw [(readTransition_eq_ok.mp (read_eq_transition.mp hr).2).2]
      exact holds_of_hasPlace ho ho.hasPlace_span
    | badHeader f => simp [hr, BlockLine.nodes] at hn
    | badTransition f => simp [hr, BlockLine.nodes] at hn
  · intro f hf
    exact any_of_errorAt (readAt_of_read (placesIn_line ho) (Option.mem_toList.mp hf)).errorAt

theorem fits_blockFates (ho : ∀ l ∈ lines, l.InOrder) (headerIndent : Nat) (under : Option Ident) :
    ∀ fate ∈ blockFates headerIndent under lines, fate.Fits := by
  induction lines generalizing under with
  | nil => simp [blockFates]
  | cons l rest ih =>
    obtain ⟨hl, hrest⟩ := List.forall_mem_cons.mp ho
    exact List.forall_mem_cons.mpr ⟨fits_blockFate hl headerIndent under, ih hrest _⟩

/-! ## The line that begins a section -/

/-- A line that begins a section is a list, or opens the transitions whatever their block
    is, or else there is one thing wrong with it. -/
theorem readSection_cases (line : Line) :
    (∃ label place colon tokens names, line.tokens = ⟨.word label, place⟩ :: ⟨.colon, colon⟩ :: tokens ∧
      label ≠ "transition_function" ∧ NameList tokens names ∧
      readSection line [] = ⟨[⟨.list ⟨label, place⟩ ⟨names, namesPlace colon names⟩, line.span⟩], []⟩) ∨
    (∃ place colon extra, line.tokens = ⟨.word "transition_function", place⟩ :: ⟨.colon, colon⟩ :: extra ∧
      ∀ block, readSection line block = readTransitions place extra block) ∨
    ∃ f, readSection line [] = ⟨[], [f]⟩ := by
  unfold readSection
  split
  · next name label colon tokens hl =>
    by_cases hname : name = SectionKind.transitionFunction.label
    · subst hname
      exact .inr (.inl ⟨label, colon, tokens, hl, fun block => if_pos rfl⟩)
    · rw [if_neg hname]
      cases hn : readNameList line.stop tokens with
      | error f => exact .inr (.inr ⟨f, by rw [readList, hn]⟩)
      | ok names =>
        have hnames := readNameList_eq_ok.mp hn
        exact .inl ⟨name, label, colon, tokens, names, hl, hname, hnames, readList_eq_iff.mpr ⟨names, hnames, rfl⟩⟩
  · exact .inr (.inr ⟨_, rfl⟩)

theorem fits_readSection (ho : line.InOrder) : (Fate.mk line (readSection line []).nodes (readSection line []).findings).Fits := by
  refine ⟨?_, ?_⟩
  · intro n hn
    show line.holds n.place = true
    simp only at hn
    rcases readSection_cases line with ⟨label, place, colon, tokens, names, hl, -, -, hr⟩ |
      ⟨place, colon, extra, hl, hr⟩ | ⟨f, hr⟩
    · obtain rfl : n = .list ⟨label, place⟩ ⟨names, namesPlace colon names⟩ line.span := by
        simpa [hr, Reading.nodes, Section.nodes] using hn
      exact holds_of_hasPlace ho ho.hasPlace_span
    · obtain rfl : n = .block ⟨"transition_function", place⟩ := by
        simpa [hr, Reading.nodes, Section.nodes, readTransitions, readBlock, groupLines, SectionKind.label] using hn
      exact holds_of_hasPlace ho (ho.hasPlace (t := ⟨.word "transition_function", place⟩) (by simp [hl]))
    · simp [hr, Reading.nodes] at hn
  · intro f hf
    exact any_of_errorAt (readAt_of_readSection (List.forall_mem_singleton.mpr (placesIn_line ho)) hf).errorAt

/-! ## All lines -/

theorem readSection_block (ho : line.opensTransitions = true) (block : List Line) :
    (readSection line block).nodes = (partFates (line, block)).flatMap Fate.nodes ∧
      (readSection line block).findings = (partFates (line, block)).flatMap Fate.findings := by
  obtain ⟨place, colon, extra, hl⟩ := opensTransitions_iff.mp ho
  have hread : ∀ block, readSection line block = readTransitions place extra block := by
    intro block
    rw [readSection, hl]
    exact if_pos rfl
  rw [partFates, List.flatMap_cons, List.flatMap_cons, hread, hread]
  cases block with
  | nil => simp
  | cons first rest =>
    simp only
    rw [nodes_blockFates, findings_blockFates]
    simp [readTransitions, readBlock, Reading.nodes, Section.nodes, groupLines]

theorem exists_parts (lines : List Line) : ∃ parts, Parts lines parts := by
  fun_induction readSections lines with
  | case1 => exact ⟨[], .nil⟩
  | case2 line rest ho ih =>
    obtain ⟨parts, hparts⟩ := ih
    have hblock := Parts.block ho (lt_of_mem_blockUnder line rest) (le_of_head?_afterBlock line rest) hparts
    rw [blockUnder_append_afterBlock] at hblock
    exact ⟨_, hblock⟩
  | case3 line rest ho ih =>
    obtain ⟨parts, hparts⟩ := ih
    exact ⟨_, .line (by simpa using ho) hparts⟩

theorem nodes_append (a b : Reading) : (a ++ b).nodes = a.nodes ++ b.nodes := List.flatMap_append

theorem partFates_of_head? {p : Line × List Line} {first : Line} (h : first ∈ p.2.head?) :
    partFates p =
      ⟨p.1, (readSection p.1 []).nodes, (readSection p.1 []).findings⟩ :: blockFates first.indent none p.2 := by
  obtain ⟨line, block⟩ := p
  cases block with
  | nil => cases h
  | cons top rest =>
    obtain rfl : top = first := by simpa using h
    rfl

theorem lines_partFates (p : Line × List Line) : (partFates p).map Fate.line = p.1 :: p.2 := by
  obtain ⟨line, block⟩ := p
  cases block with
  | nil => rfl
  | cons first rest => rw [partFates, List.map_cons, lines_blockFates]

theorem fits_partFates {p : Line × List Line} (ho : ∀ l ∈ p.1 :: p.2, l.InOrder) : ∀ fate ∈ partFates p, fate.Fits := by
  obtain ⟨line, block⟩ := p
  obtain ⟨hline, hblock⟩ := List.forall_mem_cons.mp ho
  refine List.forall_mem_cons.mpr ⟨fits_readSection hline, ?_⟩
  cases block with
  | nil => simp
  | cons first rest => exact fits_blockFates hblock first.indent none

variable {parts : List (Line × List Line)}

theorem Parts.flatMap_eq (h : Parts lines parts) : parts.flatMap (fun p => p.1 :: p.2) = lines := by
  induction h with
  | nil => rfl
  | line _ _ ih => rw [List.flatMap_cons, ih]; rfl
  | block _ _ _ _ ih => rw [List.flatMap_cons, ih]; rfl

theorem Parts.lines_fates (h : Parts lines parts) : (parts.flatMap partFates).map Fate.line = lines := by
  rw [List.map_flatMap, ← h.flatMap_eq]
  exact List.flatMap_congr fun p _ => lines_partFates p

/-- What lines are read as are the fates of the lines, in their order. -/
theorem Parts.reading (h : Parts lines parts) :
    (readSections lines).nodes = (parts.flatMap partFates).flatMap Fate.nodes ∧
      (readSections lines).findings = (parts.flatMap partFates).flatMap Fate.findings := by
  induction h with
  | nil =>
    rw [readSections]
    exact ⟨rfl, rfl⟩
  | @line line rest parts ho _ ih =>
    rw [readSections, if_neg (by simp [ho]), nodes_append, ih.1, List.flatMap_cons, List.flatMap_append,
      List.flatMap_append, ← ih.2]
    refine ⟨?_, ?_⟩
    · simp [partFates]
    · show (readSection line []).findings ++ _ = _
      simp [partFates]
  | @block line block rest parts ho hblock hrest _ ih =>
    obtain ⟨hunder, hafter⟩ := takeWhile_block hblock hrest
    obtain ⟨hnodes, hfindings⟩ := readSection_block ho block
    rw [readSections, if_pos ho, hunder, hafter, nodes_append, ih.1, List.flatMap_cons, List.flatMap_append,
      List.flatMap_append, ← ih.2, ← hnodes, ← hfindings]
    exact ⟨rfl, rfl⟩

/-! ## What lies on a line is what was made of it -/

/-- Lists of which each keeps to itself, put together, can be told apart again. -/
theorem filter_flatMap {α : Type} {fates : List Fate} {part : Fate → List α} (on : Line → α → Bool)
    (hon : ∀ fate ∈ fates, ∀ a ∈ part fate, on fate.line a = true)
    (hapart : fates.Pairwise fun x y => ∀ a, ¬ (on x.line a = true ∧ on y.line a = true)) :
    ∀ fate ∈ fates, (fates.flatMap part).filter (on fate.line) = part fate := by
  intro fate hfate
  obtain ⟨left, right, rfl⟩ := List.append_of_mem hfate
  obtain ⟨-, hright, hleft⟩ := List.pairwise_append.mp hapart
  have hnone : ∀ others : List Fate, (∀ x ∈ others, x ∈ left ++ fate :: right) →
      (∀ x ∈ others, ∀ a, ¬ (on x.line a = true ∧ on fate.line a = true)) →
      (others.flatMap part).filter (on fate.line) = [] := by
    intro others hmem hothers
    rw [List.filter_eq_nil_iff]
    intro a ha h
    obtain ⟨x, hx, hax⟩ := List.mem_flatMap.mp ha
    exact hothers x hx a ⟨hon x (hmem x hx) a hax, h⟩
  rw [List.flatMap_append, List.flatMap_cons, List.filter_append, List.filter_append,
    hnone left (fun x hx => by simp [hx]) fun x hx => hleft x hx fate (by simp),
    hnone right (fun x hx => by simp [hx]) fun x hx a h => (List.pairwise_cons.mp hright).1 x hx a ⟨h.2, h.1⟩,
    List.filter_eq_self.mpr (hon fate hfate)]
  simp

/-- A reading is made up of the fates of lines that stand apart. -/
structure FatesOf (r : Reading) (fates : List Fate) : Prop where
  nodes : r.nodes = fates.flatMap Fate.nodes
  findings : r.findings = fates.flatMap Fate.findings
  fits : ∀ fate ∈ fates, fate.Fits
  apart : (fates.map Fate.line).Pairwise fun l l' => l.span.stop < l'.span.start

theorem Parts.fatesOf (h : Parts lines parts) (ho : ∀ l ∈ lines, l.InOrder)
    (hapart : lines.Pairwise fun l l' => l.span.stop < l'.span.start) :
    FatesOf (readSections lines) (parts.flatMap partFates) := by
  refine ⟨h.reading.1, h.reading.2, ?_, h.lines_fates.symm ▸ hapart⟩
  intro fate hfate
  obtain ⟨p, hp, hfate⟩ := List.mem_flatMap.mp hfate
  refine fits_partFates ?_ fate hfate
  intro l hl
  apply ho
  rw [← h.flatMap_eq]
  exact List.mem_flatMap.mpr ⟨p, hp, hl⟩

section Fates

variable {r : Reading} {fates : List Fate} {fate : Fate}

theorem FatesOf.nodesIn (h : FatesOf r fates) (hf : fate ∈ fates) : fate.line.nodesIn r = fate.nodes := by
  rw [Line.nodesIn, h.nodes]
  refine filter_flatMap (fun l (n : Node) => l.holds n.place) (fun fate hf => (h.fits fate hf).nodes) ?_ fate hf
  exact (List.pairwise_map.mp h.apart).imp fun hapart (n : Node) => holds_apart hapart n.place

theorem FatesOf.findingsIn (h : FatesOf r fates) (hf : fate ∈ fates) : fate.line.findingsIn r = fate.findings := by
  rw [Line.findingsIn, h.findings]
  refine filter_flatMap (fun l (f : Finding) => f.place.any l.holds) (fun fate hf => (h.fits fate hf).findings) ?_ fate hf
  refine (List.pairwise_map.mp h.apart).imp ?_
  intro x y hapart f hboth
  cases hp : f.place with
  | none => simp [hp] at hboth
  | some place =>
    rw [hp] at hboth
    exact holds_apart hapart place hboth

/-- What is read is what lies on the lines, in their order. -/
theorem FatesOf.flatMap_eq (h : FatesOf r fates) :
    r.nodes = (fates.map Fate.line).flatMap (Line.nodesIn · r) ∧
      r.findings = (fates.map Fate.line).flatMap (Line.findingsIn · r) := by
  rw [List.flatMap_map, List.flatMap_map]
  refine ⟨h.nodes.trans ?_, h.findings.trans ?_⟩
  · exact List.flatMap_congr fun fate hf => (h.nodesIn hf).symm
  · exact List.flatMap_congr fun fate hf => (h.findingsIn hf).symm

end Fates

/-! ## The account of all lines -/

section Accounts

variable {r : Reading}

theorem headAccount (hnodes : line.nodesIn r = (readSection line []).nodes)
    (hfindings : line.findingsIn r = (readSection line []).findings) : HeadAccount r line := by
  rcases readSection_cases line with ⟨label, place, colon, tokens, names, hl, hne, hnames, hr⟩ |
    ⟨place, colon, extra, hl, hr⟩ | ⟨f, hr⟩
  · rw [hr] at hnodes hfindings
    exact .list hl hne hnames ⟨hnodes, hfindings⟩
  · have hlabel : line.nodesIn r = [.block ⟨"transition_function", place⟩] := by
      rw [hnodes, hr]
      rfl
    rw [hr] at hfindings
    cases extra with
    | nil => exact .block hl ⟨hlabel, hfindings⟩
    | cons t extra => exact .trailing hl (List.cons_ne_nil t extra) hlabel ⟨_, hfindings⟩
  · rw [hr] at hnodes hfindings
    exact .refused ⟨hnodes, f, hfindings⟩

/-- The fate of each line of a block is that under the header that is open above it. -/
def BlockFate (r : Reading) (headerIndent : Nat) (block : List Line) : Prop :=
  ∀ above l below, block = above ++ l :: below →
    l.nodesIn r = (BlockLine.read headerIndent l).nodes (openBelow headerIndent none above) ∧
      l.findingsIn r = (BlockLine.read headerIndent l).finding?.toList

/-- A line of a block that is no deeper than headers. -/
theorem blockAccount_of_le (hfate : BlockFate r headerIndent block) (hblock : block = above ++ l :: below)
    (h : l.indent ≤ headerIndent) :
    (∃ state, BlockLine.read headerIndent l = .header state ∧ l.Became r (.header state.value)) ∨
      (∃ f, BlockLine.read headerIndent l = .badHeader f) ∧ l.Refused r := by
  obtain ⟨hnodes, hfindings⟩ := hfate above l below hblock
  rcases read_of_le h with ⟨state, hr⟩ | ⟨f, hr⟩
  · rw [hr] at hnodes hfindings
    exact .inl ⟨state, hr, hnodes, hfindings⟩
  · rw [hr] at hnodes hfindings
    exact .inr ⟨⟨f, hr⟩, hnodes, f, hfindings⟩

/-- Above a line that is deeper than the first of its block there is one that is not. -/
theorem exists_headerLine {first : Line} (hfirst : first ∈ block.head?) (hblock : block = above ++ l :: below)
    (h : first.indent < l.indent) :
    ∃ header, headerLine? first.indent above = some header ∧ header ∈ above ∧ header.indent ≤ first.indent := by
  have hmem : first ∈ above := by
    cases above with
    | nil =>
      rw [hblock] at hfirst
      obtain rfl : l = first := by simpa using hfirst
      exact absurd h (Nat.lt_irrefl _)
    | cons top above =>
      rw [hblock] at hfirst
      obtain rfl : top = first := by simpa using hfirst
      exact List.mem_cons_self
  have hne : (above.filter fun l => l.indent ≤ first.indent) ≠ [] :=
    List.ne_nil_of_mem (List.mem_filter.mpr ⟨hmem, by simp⟩)
  have hlast := List.getLast_mem hne
  rw [List.mem_filter, decide_eq_true_eq] at hlast
  exact ⟨_, List.getLast?_eq_some_getLast hne, hlast⟩

theorem blockAccount {first : Line} (hfirst : first ∈ block.head?) (hfate : BlockFate r first.indent block)
    (hblock : block = above ++ l :: below) : BlockAccount r first.indent above l := by
  by_cases hdepth : l.indent ≤ first.indent
  · rcases blockAccount_of_le hfate hblock hdepth with ⟨state, hr, hbecame⟩ | ⟨-, hrefused⟩
    · obtain ⟨hindent, hheader⟩ := read_eq_header.mp hr
      obtain ⟨name, place, colon, hl, rfl⟩ := readHeader_eq_ok.mp hheader
      exact .header hindent hl hbecame
    · exact .refused hrefused
  · have hlt : first.indent < l.indent := Nat.lt_of_not_le hdepth
    obtain ⟨hnodes, hfindings⟩ := hfate above l below hblock
    obtain ⟨header, hunder, hmem, hle⟩ := exists_headerLine hfirst hblock hlt
    obtain ⟨before, between, rfl⟩ := List.append_of_mem hmem
    have hsplit : block = before ++ header :: (between ++ l :: below) := by
      rw [hblock, List.append_assoc]
      rfl
    rw [openBelow_eq, hunder, Option.bind_some] at hnodes
    rcases read_of_lt hlt with ⟨t, hr⟩ | ⟨f, hr⟩
    · obtain ⟨hform, hspan⟩ := readTransition_eq_ok.mp (read_eq_transition.mp hr).2
      obtain ⟨value, span⟩ := t
      simp only at hform hspan
      subst hspan
      rw [hr] at hnodes hfindings
      rcases blockAccount_of_le hfate hsplit hle with ⟨state, hstate, hopened⟩ | ⟨⟨f, hbad⟩, hclosed⟩
      · rw [hstate] at hnodes
        exact .transition hlt hform hunder hopened ⟨hnodes, hfindings⟩
      · rw [hbad] at hnodes
        exact .dropped hlt hform hunder hclosed ⟨hnodes, hfindings⟩
    · rw [hr] at hnodes hfindings
      exact .refused ⟨hnodes, f, hfindings⟩

end Accounts

/-- Lines that stand apart in a text are all accounted for, whatever is wrong with them. -/
theorem accounts_of_apart (ho : ∀ l ∈ lines, l.InOrder)
    (hapart : lines.Pairwise fun l l' => l.span.stop < l'.span.start) :
    ∃ parts, Accounts lines parts (readSections lines) := by
  obtain ⟨parts, hparts⟩ := exists_parts lines
  have hfates := hparts.fatesOf ho hapart
  obtain ⟨hnodes, hfindings⟩ := hfates.flatMap_eq
  rw [hparts.lines_fates] at hnodes hfindings
  have hon : ∀ p ∈ parts, ∀ fate ∈ partFates p, fate.line.nodesIn (readSections lines) = fate.nodes ∧
      fate.line.findingsIn (readSections lines) = fate.findings := by
    intro p hp fate hfate
    have hfate := List.mem_flatMap.mpr ⟨p, hp, hfate⟩
    exact ⟨hfates.nodesIn hfate, hfates.findingsIn hfate⟩
  refine ⟨parts, hparts, hparts.flatMap_eq, hnodes, hfindings, ?_, ?_⟩
  · intro p hp
    obtain ⟨hnodes, hfindings⟩ := hon p hp _ List.mem_cons_self
    exact headAccount hnodes hfindings
  · intro p hp first hfirst above l below hblock
    refine blockAccount hfirst ?_ hblock
    intro above l below hblock
    have hfate : blockFate first.indent (openBelow first.indent none above) l ∈ partFates p := by
      rw [partFates_of_head? hfirst, hblock, blockFates_append]
      exact List.mem_cons_of_mem _ (List.mem_append_right _ List.mem_cons_self)
    obtain ⟨hnodes, hfindings⟩ := hon p hp _ hfate
    exact ⟨hnodes, hfindings⟩

theorem exists_accounts (source : String) :
    ∃ parts, Accounts (linesOf (scan source)) parts (readSections (linesOf (scan source))) := by
  refine accounts_of_apart ?_ (linesOf_apart 0 source.toList)
  intro l hl
  obtain ⟨above, line, -, hon⟩ := exists_isLine_of_mem hl
  exact hon.inOrder

/-- The lines of a text hold all of its tokens but comments, and every line is accounted
    for. -/
theorem readSections_accounts (source : String) :
    (linesOf (scan source)).flatMap Line.tokens = ((scan source).filterMap Scanned.kept?).map Prod.snd ∧
      ∃ parts, Accounts (linesOf (scan source)) parts (readSections (linesOf (scan source))) :=
  ⟨tokens_linesOf _, exists_accounts source⟩

end Pushdown
