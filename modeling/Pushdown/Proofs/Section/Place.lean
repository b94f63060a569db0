/-
  Pushdown.Proofs.Section.Place — where the parts of a section stand.

  What is read from lines keeps to their tokens: every name of a section is a word of some
  line, and a section, a list, a group, a transition and a replacement enclose their parts,
  which follow each other as the tokens do. `readSections_keepsTo`: this is so of any lines
  in order, whatever is wrong with them.
-/

import Pushdown.Proofs.Line.Place
import Pushdown.Proofs.Report
import Pushdown.Proofs.Section.Grammar

namespace Pushdown

open Grammar

/-! ## Names and places -/

/-- All names of a transition, in their order. -/
def TransitionLine.idents (t : TransitionLine) : List Ident := t.letter :: t.top :: t.next :: t.push.value

def StateGroup.idents (g : StateGroup) : List Ident := g.state :: g.transitions.flatMap fun t => t.value.idents

def Section.idents : Section → List Ident
  | .list label items => label :: items.value
  | .transitions label groups => label :: groups.flatMap fun g => g.value.idents

/-- The word that a name was read from. -/
def Ident.token (i : Ident) : Located Token := ⟨.word i.value, i.span⟩

structure TransitionLine.Nested (t : Located TransitionLine) : Prop where
  parts : t.span.Holds [t.value.letter.span, t.value.top.span, t.value.next.span, t.value.push.span]
  push : t.value.push.span.Holds (t.value.push.value.map Located.span)

structure StateGroup.Nested (g : Located StateGroup) : Prop where
  parts : g.span.Holds (g.value.state.span :: g.value.transitions.map Located.span)
  transitions : ∀ t ∈ g.value.transitions, TransitionLine.Nested t

/-- A section encloses its label and its items or groups, and these what they consist of. -/
def Section.Nested (s : Located Section) : Prop :=
  match s.value with
  | .list label items =>
    s.span.Holds [label.span, items.span] ∧ items.span.Holds (items.value.map Located.span)
  | .transitions label groups =>
    s.span.Holds (label.span :: groups.map Located.span) ∧ ∀ g ∈ groups, StateGroup.Nested g

/-! ## What is enclosed -/

theorem TransitionLine.Nested.encloses {t : Located TransitionLine} (h : Nested t) :
    ∀ i ∈ t.value.idents, t.span.Encloses i.span := by
  have hparts := h.parts.encloses
  simp only [List.forall_mem_cons] at hparts
  obtain ⟨hletter, htop, hnext, hpush, -⟩ := hparts
  have hsymbols : ∀ i ∈ t.value.push.value, t.span.Encloses i.span := fun i hi =>
    Span.Encloses.trans hpush (h.push.encloses _ (List.mem_map_of_mem hi))
  exact List.forall_mem_cons.mpr ⟨hletter, List.forall_mem_cons.mpr ⟨htop, List.forall_mem_cons.mpr ⟨hnext, hsymbols⟩⟩⟩

namespace StateGroup.Nested

variable {g : Located StateGroup}

theorem encloses_transition (h : Nested g) : ∀ t ∈ g.value.transitions, g.span.Encloses t.span := by
  intro t ht
  exact h.parts.encloses _ (.tail _ (List.mem_map_of_mem ht))

theorem encloses (h : Nested g) : ∀ i ∈ g.value.idents, g.span.Encloses i.span := by
  have htransitions : ∀ i ∈ g.value.transitions.flatMap fun t => t.value.idents, g.span.Encloses i.span := by
    intro i hi
    obtain ⟨t, ht, hi⟩ := List.mem_flatMap.mp hi
    exact (h.encloses_transition t ht).trans ((h.transitions t ht).encloses i hi)
  exact List.forall_mem_cons.mpr ⟨h.parts.encloses _ (.head _), htransitions⟩

/-- The state stands before its transitions. -/
theorem state_apart (h : Nested g) : ∀ t ∈ g.value.transitions, g.value.state.span.Apart t.span := by
  intro t ht
  exact .inl ((Span.Row.cons_iff.mp h.parts.row).2.1 _ (List.mem_map_of_mem ht))

end StateGroup.Nested

/-! ## One line -/

section Line

variable {line : Line}

theorem tokens_of_names {tokens : List (Located Token)} {names : List Ident} (h : NameList tokens names) :
    (names.map Ident.token).Sublist tokens := by
  cases h with
  | none => exact List.Sublist.slnil
  | some h =>
    induction h with
    | one name place => exact List.Sublist.refl _
    | more name place comma _ ih => exact (ih.cons _).cons_cons _

theorem map_span_token (names : List Ident) : (names.map Ident.token).map Located.span = names.map Located.span := by
  rw [List.map_map]
  rfl

/-- A list reaches from its first name to its last; without names it is the place after the
    colon. -/
theorem namesPlace_cases (colon : Span) (names : List Ident) :
    names = [] ∧ namesPlace colon names = .point colon.stop ∨
      ∃ first ∈ names.head?, ∃ last ∈ names.getLast?, namesPlace colon names = first.span.join last.span := by
  cases names with
  | nil => exact .inl ⟨rfl, rfl⟩
  | cons first rest =>
    have hlast := List.getLast?_eq_some_getLast (List.cons_ne_nil first rest)
    refine .inr ⟨first, rfl, _, hlast, ?_⟩
    simp only [namesPlace, List.head?_cons, hlast]

/-- The place of the names of a list, on its line and after its label. -/
theorem namesPlace_of_list {label : Ident} {colon : Span} {tokens : List (Located Token)} {names : List Ident}
    (ho : line.InOrder) (hl : line.tokens = label.token :: ⟨.colon, colon⟩ :: tokens) (hn : NameList tokens names) :
    line.span.Holds [label.span, namesPlace colon names] ∧ (namesPlace colon names).Holds (names.map Located.span) ∧
      line.HasPlace (namesPlace colon names) := by
  have hs : (label.token :: ⟨.colon, colon⟩ :: names.map Ident.token).Sublist line.tokens := by
    rw [hl]
    exact ((tokens_of_names hn).cons_cons _).cons_cons _
  have hholds := ho.some hs
  simp only [List.map_cons, map_span_token] at hholds
  rcases namesPlace_cases colon names with ⟨rfl, hplace⟩ | ⟨first, hfirst, last, hlast, hplace⟩
  · rw [hplace]
    exact ⟨Span.Holds.atStop [label.span] hholds, ⟨by simp, .nil⟩,
      (ho.hasPlace (hs.subset (.tail _ (.head _)))).atStop⟩
  · have hfirst' : (names.map Located.span).head? = some first.span := by
      rw [List.head?_map, Option.mem_def.mp hfirst, Option.map_some]
    have hlast' : (names.map Located.span).getLast? = some last.span := by
      rw [List.getLast?_map, Option.mem_def.mp hlast, Option.map_some]
    have hname : ∀ i ∈ names, line.HasPlace i.span := fun i hi =>
      ho.hasPlace (hs.subset (.tail _ (.tail _ (List.mem_map_of_mem hi))))
    have hrow := hholds.row.sublist (List.sublist_append_right [_, _] _)
    rw [hplace]
    refine ⟨?_, hrow.holds hfirst' hlast', ?_⟩
    · exact Span.Holds.together [label.span] (hholds.sublist (.cons_cons _ (.cons _ (.refl _)))) hfirst' hlast'
    · exact (hname first (List.mem_of_head? hfirst)).join (hname last (List.mem_of_getLast? hlast))

/-- The names of a transition among the tokens of its line, with the brackets. -/
theorem tokens_of_transition {tokens : List (Located Token)} {t : TransitionLine} (h : Transition tokens t) :
    ∃ bracketOpen bracketClose : Span, t.push.span = bracketOpen.join bracketClose ∧
      (t.letter.token :: t.top.token :: t.next.token :: ⟨.bracketOpen, bracketOpen⟩ ::
        (t.push.value.map Ident.token ++ [⟨.bracketClose, bracketClose⟩])).Sublist tokens := by
  cases h with
  | mk parOpen letterPlace comma topPlace parClose arrow nextPlace bracketOpen bracketClose letter top next hn =>
    refine ⟨bracketOpen, bracketClose, rfl, ?_⟩
    have hnames := (tokens_of_names hn).append (List.Sublist.refl [⟨Token.bracketClose, bracketClose⟩])
    exact .cons _ (.cons_cons _ (.cons _ (.cons_cons _ (.cons _ (.cons _ (.cons_cons _ (.cons_cons _ hnames)))))))

theorem nested_of_transition {t : TransitionLine} (ht : Transition line.tokens t) (h : line.InOrder) :
    TransitionLine.Nested ⟨t, line.span⟩ := by
  obtain ⟨bracketOpen, bracketClose, hpush, hs⟩ := tokens_of_transition ht
  have hholds := h.some hs
  simp only [List.map_cons, List.map_append, map_span_token, List.map_nil] at hholds
  have hlast : (bracketOpen :: (t.push.value.map Located.span ++ [bracketClose])).getLast? = some bracketClose := by
    rw [← List.cons_append, List.getLast?_concat]
  refine ⟨?_, ?_⟩
  · rw [hpush]
    exact Span.Holds.together [t.letter.span, t.top.span, t.next.span] hholds rfl hlast
  · have hreplacement := (hholds.row.sublist (List.sublist_append_right [_, _, _] _)).holds rfl hlast
    rw [hpush]
    exact hreplacement.sublist (.cons _ (List.sublist_append_left ..))

theorem words_of_transition {tokens : List (Located Token)} {t : TransitionLine} (h : Transition tokens t) :
    ∀ i ∈ t.idents, i.token ∈ tokens := by
  obtain ⟨bracketOpen, bracketClose, -, hs⟩ := tokens_of_transition h
  intro i hi
  refine hs.subset ?_
  rcases List.mem_cons.mp hi with rfl | hi
  · exact .head _
  rcases List.mem_cons.mp hi with rfl | hi
  · exact .tail _ (.head _)
  rcases List.mem_cons.mp hi with rfl | hi
  · exact .tail _ (.tail _ (.head _))
  · exact .tail _ (.tail _ (.tail _ (.tail _ (List.mem_append_left _ (List.mem_map_of_mem hi)))))

/-- A header takes its whole line. -/
theorem header_of_read {headerIndent : Nat} {state : Located Ident}
    (h : BlockLine.read headerIndent line = .header state) :
    state.span = line.span ∧ state.value.token ∈ line.tokens := by
  obtain ⟨name, place, colon, hl, rfl⟩ := readHeader_eq_ok.mp (read_eq_header.mp h).2
  refine ⟨?_, ?_⟩
  · simp [Line.span, hl]
  · rw [hl]
    exact .head _

end Line

/-! ## Parts of lines -/

/-- A place on one of some lines. -/
def OnLines (lines : List Line) (s : Span) : Prop := ∃ l ∈ lines, l.HasPlace s

/-- A name that is a word of some line. -/
def Ident.IsWordOf (lines : List Line) (i : Ident) : Prop := ∃ l ∈ lines, i.token ∈ l.tokens

structure TransitionLine.KeepsTo (lines : List Line) (t : Located TransitionLine) : Prop where
  words : ∀ i ∈ t.value.idents, i.IsWordOf lines
  nested : TransitionLine.Nested t
  line : t.span ∈ lines.map Line.span

structure StateGroup.KeepsTo (lines : List Line) (g : Located StateGroup) : Prop where
  state : g.value.state.IsWordOf lines
  transitions : ∀ t ∈ g.value.transitions, TransitionLine.KeepsTo lines t
  parts : g.span.Holds (g.value.state.span :: g.value.transitions.map Located.span)
  amid : g.span.Amid (lines.map Line.span)

section Parts

variable {lines lines' : List Line}

theorem OnLines.mono {s : Span} (h : OnLines lines s) (hs : lines ⊆ lines') : OnLines lines' s := by
  obtain ⟨l, hl, hplace⟩ := h
  exact ⟨l, hs hl, hplace⟩

theorem Ident.IsWordOf.mono {i : Ident} (h : i.IsWordOf lines) (hs : lines ⊆ lines') : i.IsWordOf lines' := by
  obtain ⟨l, hl, hword⟩ := h
  exact ⟨l, hs hl, hword⟩

theorem TransitionLine.KeepsTo.mono {t : Located TransitionLine} (h : KeepsTo lines t) (hs : lines ⊆ lines') :
    KeepsTo lines' t :=
  ⟨fun i hi => (h.words i hi).mono hs, h.nested, List.map_subset _ hs h.line⟩

theorem StateGroup.KeepsTo.mono {g : Located StateGroup} (h : KeepsTo lines g) (hs : lines ⊆ lines') :
    KeepsTo lines' g :=
  ⟨h.state.mono hs, fun t ht => (h.transitions t ht).mono hs, h.parts, h.amid.mono (List.map_subset _ hs)⟩

theorem StateGroup.KeepsTo.nested {g : Located StateGroup} (h : KeepsTo lines g) : Nested g :=
  ⟨h.parts, fun t ht => (h.transitions t ht).nested⟩

theorem StateGroup.KeepsTo.words {g : Located StateGroup} (h : KeepsTo lines g) :
    ∀ i ∈ g.value.idents, i.IsWordOf lines := by
  intro i hi
  rcases List.mem_cons.mp hi with rfl | hi
  · exact h.state
  · obtain ⟨t, ht, hit⟩ := List.mem_flatMap.mp hi
    exact (h.transitions t ht).words i hit

end Parts

/-! ## A block of transitions -/

/-- The lines of a text that were read one after the other. -/
structure LinesInOrder (lines : List Line) : Prop where
  tokens : ∀ l ∈ lines, l.InOrder
  lines : Span.Row (lines.map Line.span)

section InOrder

variable {line : Line} {lines lines' : List Line}

theorem LinesInOrder.sublist (h : LinesInOrder lines) (hs : lines'.Sublist lines) : LinesInOrder lines' :=
  ⟨fun l hl => h.tokens l (hs.subset hl), h.lines.sublist (hs.map _)⟩

theorem LinesInOrder.below (h : LinesInOrder (line :: lines)) : LinesInOrder lines :=
  h.sublist (List.sublist_cons_self ..)

theorem LinesInOrder.left (h : LinesInOrder (lines ++ lines')) : LinesInOrder lines :=
  h.sublist (List.sublist_append_left ..)

theorem LinesInOrder.right (h : LinesInOrder (lines ++ lines')) : LinesInOrder lines' :=
  h.sublist (List.sublist_append_right ..)

end InOrder

/-- What a block is read as keeps to its lines, and follows their order. -/
structure GroupsKeepTo (lines : List Line) (ts : List (Located TransitionLine)) (gs : List (Located StateGroup)) :
    Prop where
  transitions : ∀ t ∈ ts, TransitionLine.KeepsTo lines t
  groups : ∀ g ∈ gs, StateGroup.KeepsTo lines g
  row : Span.Row (ts.map Located.span ++ gs.map Located.span)

section Block

variable {line : Line} {lines : List Line} {ts : List (Located TransitionLine)} {gs : List (Located StateGroup)}

theorem GroupsKeepTo.amid (h : GroupsKeepTo lines ts gs) :
    ∀ s ∈ ts.map Located.span ++ gs.map Located.span, s.Amid (lines.map Line.span) := by
  intro s hs
  rcases List.mem_append.mp hs with hs | hs
  · obtain ⟨t, ht, rfl⟩ := List.mem_map.mp hs
    exact Span.amid_of_mem (h.transitions t ht).line
  · obtain ⟨g, hg, rfl⟩ := List.mem_map.mp hs
    exact (h.groups g hg).amid

/-- A line is before all that the lines below it are read as. -/
theorem GroupsKeepTo.below (h : GroupsKeepTo lines ts gs) (hl : LinesInOrder (line :: lines)) :
    Span.Row (line.span :: (ts.map Located.span ++ gs.map Located.span)) := by
  obtain ⟨hle, hbefore, -⟩ := Span.Row.cons_iff.mp hl.lines
  refine Span.Row.cons_iff.mpr ⟨hle, ?_, h.row⟩
  intro s hs
  obtain ⟨⟨p, hp, hstart⟩, -⟩ := h.amid s hs
  exact Nat.le_trans (hbefore p hp) hstart

theorem GroupsKeepTo.mono {lines' : List Line} (h : GroupsKeepTo lines ts gs) (hs : lines ⊆ lines') :
    GroupsKeepTo lines' ts gs :=
  ⟨fun t ht => (h.transitions t ht).mono hs, fun g hg => (h.groups g hg).mono hs, h.row⟩

variable {headerIndent : Nat}

theorem keepsTo_of_transition {t : Located TransitionLine} (h : BlockLine.read headerIndent line = .transition t)
    (ho : line.InOrder) : TransitionLine.KeepsTo [line] t := by
  obtain ⟨hform, hspan⟩ := readTransition_eq_ok.mp (read_eq_transition.mp h).2
  obtain ⟨value, place⟩ := t
  simp only at hform hspan
  subst hspan
  refine ⟨?_, nested_of_transition hform ho, List.mem_singleton_self _⟩
  intro i hi
  exact ⟨line, List.mem_singleton_self _, words_of_transition hform i hi⟩

theorem GroupsKeepTo.transition {t : Located TransitionLine} (h : GroupsKeepTo lines ts gs)
    (hl : LinesInOrder (line :: lines)) (ht : BlockLine.read headerIndent line = .transition t) :
    GroupsKeepTo (line :: lines) (t :: ts) gs := by
  have hkeeps := keepsTo_of_transition ht (hl.tokens _ List.mem_cons_self)
  have hbelow := h.mono (List.subset_cons_self line lines)
  have hspan : t.span = line.span := List.mem_singleton.mp hkeeps.line
  refine ⟨List.forall_mem_cons.mpr ⟨hkeeps.mono (by simp), hbelow.transitions⟩, hbelow.groups, ?_⟩
  rw [List.map_cons, hspan]
  exact h.below hl

/-- A group is amid its header and its transitions. -/
theorem stateGroup_amid (state : Located Ident) (ts : List (Located TransitionLine)) :
    (StateGroup.of state ts).span.Amid (state.span :: ts.map Located.span) := by
  refine Span.foldl_join_amid (Span.amid_of_mem (.head _)) ?_
  intro t ht
  exact Span.amid_of_mem (.tail _ (List.mem_map_of_mem ht))

/-- The group of a header: it reaches from the line of the header to its last transition. -/
theorem keepsTo_of_header {state : Located Ident} (h : GroupsKeepTo lines ts gs) (hl : LinesInOrder (line :: lines))
    (hh : BlockLine.read headerIndent line = .header state) :
    StateGroup.KeepsTo (line :: lines) (StateGroup.of state ts) := by
  obtain ⟨hspan, hword⟩ := header_of_read hh
  have hline : line.InOrder := hl.tokens _ List.mem_cons_self
  obtain ⟨-, hafter, hrow⟩ := Span.Row.cons_iff.mp (h.below hl)
  have hts : Span.Row (ts.map Located.span) := hrow.sublist (List.sublist_append_left ..)
  obtain ⟨hstart, hstop, hinside⟩ : (StateGroup.of state ts).span.start ≤ state.span.start ∧
      state.span.stop ≤ (StateGroup.of state ts).span.stop ∧
      ∀ t ∈ ts, (StateGroup.of state ts).span.start ≤ t.span.start ∧ t.span.stop ≤ (StateGroup.of state ts).span.stop :=
    Span.foldl_join_encloses state.span Located.span ts
  have hname := hline.holds.encloses _ (List.mem_map_of_mem hword)
  have hname_le := hline.holds.row.le _ (List.mem_map_of_mem hword)
  have hlines : line.span :: ts.map Located.span ⊆ (line :: lines).map Line.span := by
    refine List.cons_subset_cons _ ?_
    intro s hs
    obtain ⟨t, ht, rfl⟩ := List.mem_map.mp hs
    exact (h.transitions t ht).line
  refine ⟨⟨line, List.mem_cons_self, hword⟩, (h.mono (List.subset_cons_self ..)).transitions, ⟨?_, ?_⟩, ?_⟩
  · refine List.forall_mem_cons.mpr ⟨?_, ?_⟩
    · rw [hspan] at hstart hstop
      exact ⟨Nat.le_trans hstart hname.1, Nat.le_trans hname.2 hstop⟩
    · intro s hs
      obtain ⟨t, ht, rfl⟩ := List.mem_map.mp hs
      exact hinside t ht
  · refine Span.Row.cons_iff.mpr ⟨hname_le, ?_, hts⟩
    intro s hs
    exact Nat.le_trans hname.2 (hafter s (List.mem_append_left _ hs))
  · rw [← hspan] at hlines
    exact (stateGroup_amid state ts).mono hlines

theorem GroupsKeepTo.header {state : Located Ident} (h : GroupsKeepTo lines ts gs)
    (hl : LinesInOrder (line :: lines)) (hh : BlockLine.read headerIndent line = .header state) :
    GroupsKeepTo (line :: lines) [] (StateGroup.of state ts :: gs) := by
  have hgroup := keepsTo_of_header h hl hh
  have hrow := h.below hl
  refine ⟨by simp, List.forall_mem_cons.mpr ⟨hgroup, (h.mono (List.subset_cons_self ..)).groups⟩, ?_⟩
  refine Span.Row.cons_iff.mpr ⟨?_, ?_, hrow.sublist (.cons _ (List.sublist_append_right ..))⟩
  · exact hgroup.parts.le
  · intro s hs
    -- the group is amid its own lines, and they come before the groups below
    have hamid := stateGroup_amid state ts
    rw [(header_of_read hh).1] at hamid
    exact hamid.before (Span.amid_of_mem hs) (List.pairwise_append.mp hrow.ordered).2.2

/-- A line that opens nothing leaves the groups below it, and maybe the transitions. -/
theorem GroupsKeepTo.skip {ts' : List (Located TransitionLine)} (h : GroupsKeepTo lines ts gs) (hs : ts'.Sublist ts) :
    GroupsKeepTo (line :: lines) ts' gs := by
  have hbelow := h.mono (List.subset_cons_self line lines)
  exact ⟨fun t ht => hbelow.transitions t (hs.subset ht), hbelow.groups, h.row.sublist ((hs.map _).append_right _)⟩

/-- Whatever the lines of a block are read as keeps to them. -/
theorem groupLines_keepTo (headerIndent : Nat) {lines : List Line} (hl : LinesInOrder lines) :
    GroupsKeepTo lines (groupLines (lines.map (BlockLine.read headerIndent))).1
      (groupLines (lines.map (BlockLine.read headerIndent))).2 := by
  induction lines with
  | nil => exact ⟨by simp [groupLines], by simp [groupLines], .nil⟩
  | cons line rest ih =>
    have hbelow := ih hl.below
    rw [List.map_cons]
    cases hr : BlockLine.read headerIndent line with
    | header state => exact hbelow.header hl hr
    | transition t => exact hbelow.transition hl hr
    | badHeader f => exact hbelow.skip (List.nil_sublist _)
    | badTransition f => exact hbelow.skip (.refl _)

theorem readBlock_keepTo {block : List Line} (hl : LinesInOrder block) :
    GroupsKeepTo block (groupLines (readBlock block)).1 (groupLines (readBlock block)).2 := by
  cases block with
  | nil => exact ⟨by simp [readBlock, groupLines], by simp [readBlock, groupLines], .nil⟩
  | cons first rest => exact groupLines_keepTo first.indent hl

end Block

/-! ## Sections -/

/-- The places in a section, apart from those of its names, that something may be found
    wrong with: its list, or its transitions. -/
def Section.inner : Section → List Span
  | .list _ items => [items.span]
  | .transitions _ groups => groups.flatMap fun g => g.value.transitions.map Located.span

structure Section.KeepsTo (lines : List Line) (s : Located Section) : Prop where
  words : ∀ i ∈ s.value.idents, i.IsWordOf lines
  inner : ∀ place ∈ s.value.inner, OnLines lines place
  nested : Section.Nested s
  amid : s.span.Amid (lines.map Line.span)

/-- The sections that lines are read as keep to them, and follow their order. -/
structure Reading.KeepsTo (lines : List Line) (r : Reading) : Prop where
  sections : ∀ s ∈ r.sections, Section.KeepsTo lines s
  row : Span.Row (r.sections.map Located.span)

section Sections

variable {line : Line} {lines block : List Line}

theorem Section.KeepsTo.mono {s : Located Section} {lines' : List Line} (h : KeepsTo lines s) (hs : lines ⊆ lines') :
    KeepsTo lines' s :=
  ⟨fun i hi => (h.words i hi).mono hs, fun p hp => (h.inner p hp).mono hs, h.nested, h.amid.mono (List.map_subset _ hs)⟩

theorem Reading.KeepsTo.mono {r : Reading} {lines' : List Line} (h : KeepsTo lines r) (hs : lines ⊆ lines') :
    KeepsTo lines' r :=
  ⟨fun s hm => (h.sections s hm).mono hs, h.row⟩

theorem Reading.KeepsTo.append {r r' : Reading} {lines' : List Line} (h : KeepsTo lines r) (h' : KeepsTo lines' r')
    (hl : Span.Row ((lines ++ lines').map Line.span)) : KeepsTo (lines ++ lines') (r ++ r') := by
  have hleft := h.mono (List.subset_append_left lines lines')
  have hright := h'.mono (List.subset_append_right lines lines')
  refine ⟨?_, ?_⟩
  · intro s hs
    exact (List.mem_append.mp hs).elim (hleft.sections s) (hright.sections s)
  · show Span.Row ((r.sections ++ r'.sections).map Located.span)
    rw [List.map_append] at hl ⊢
    refine h.row.append h'.row ?_
    intro place hp place' hp'
    obtain ⟨s, hs, rfl⟩ := List.mem_map.mp hp
    obtain ⟨t, ht, rfl⟩ := List.mem_map.mp hp'
    exact (h.sections s hs).amid.before (h'.sections t ht).amid (List.pairwise_append.mp hl.ordered).2.2

/-- The names of a list keep to its line, and stand after its label. -/
theorem keepsTo_of_readList {label : Ident} {colon : Span} {tokens : List (Located Token)} (ho : line.InOrder)
    (hl : line.tokens = label.token :: ⟨.colon, colon⟩ :: tokens) :
    (readList line label colon tokens).KeepsTo [line] := by
  have htokens : ∀ t ∈ tokens, t ∈ line.tokens := fun t ht => hl ▸ .tail _ (.tail _ ht)
  unfold readList
  split
  · exact ⟨by simp, .nil⟩
  · next names hn =>
    have hn := readNameList_eq_ok.mp hn
    obtain ⟨hparts, hnames, hplace⟩ := namesPlace_of_list ho hl hn
    refine ⟨List.forall_mem_singleton.mpr ⟨?_, ?_, ⟨hparts, hnames⟩, ?_⟩, ?_⟩
    · intro i hi
      refine ⟨line, List.mem_singleton_self _, ?_⟩
      rcases List.mem_cons.mp hi with rfl | hi
      · rw [hl]
        exact .head _
      · exact htokens _ ((tokens_of_names hn).subset (List.mem_map_of_mem hi))
    · exact List.forall_mem_singleton.mpr ⟨line, List.mem_singleton_self _, hplace⟩
    · exact Span.amid_of_mem (List.mem_singleton_self _)
    · exact Span.Row.cons_iff.mpr ⟨ho.hasPlace_span.le, by simp, .nil⟩

/-- From the label of a block to its end all of its groups are enclosed. -/
theorem blockPlace_holds {label : Span} (hlabel : label.start ≤ label.stop) (hline : label.stop ≤ line.span.stop)
    (ho : LinesInOrder (line :: block)) :
    (blockPlace label block).Holds (label :: (groupLines (readBlock block)).2.map Located.span) := by
  have hgroups := readBlock_keepTo ho.below
  obtain ⟨hstart, hstop, hinside⟩ := Span.foldl_join_encloses label Line.span block
  obtain ⟨-, hafter, hrow⟩ := Span.Row.cons_iff.mp (hgroups.below ho)
  refine ⟨List.forall_mem_cons.mpr ⟨⟨hstart, hstop⟩, ?_⟩, Span.Row.cons_iff.mpr ⟨hlabel, ?_, ?_⟩⟩
  · intro s hs
    exact (hgroups.amid s (List.mem_append_right _ hs)).enclosed (List.forall_mem_map.mpr hinside)
  · intro s hs
    exact Nat.le_trans hline (hafter s (List.mem_append_right _ hs))
  · exact hrow.sublist (List.sublist_append_right ..)

/-- The block under a line keeps to its own lines. -/
theorem keepsTo_of_readTransitions {label colon : Span} {extra : List (Located Token)}
    (hl : line.tokens = ⟨.word SectionKind.transitionFunction.label, label⟩ :: ⟨.colon, colon⟩ :: extra)
    (ho : LinesInOrder (line :: block)) : (readTransitions label extra block).KeepsTo (line :: block) := by
  have hline : line.InOrder := ho.tokens _ List.mem_cons_self
  have hgroups := readBlock_keepTo ho.below
  have hword : (⟨.word SectionKind.transitionFunction.label, label⟩ : Located Token) ∈ line.tokens := hl ▸ .head _
  have hname := hline.holds.encloses _ (List.mem_map_of_mem hword)
  have hparts := blockPlace_holds (hline.hasPlace hword).le hname.2 ho
  refine ⟨List.forall_mem_singleton.mpr ⟨?_, ?_, ⟨hparts, fun g hg => (hgroups.groups g hg).nested⟩, ?_⟩, ?_⟩
  · intro i hi
    rcases List.mem_cons.mp hi with rfl | hi
    · exact ⟨line, List.mem_cons_self, hword⟩
    · obtain ⟨g, hg, hi⟩ := List.mem_flatMap.mp hi
      exact ((hgroups.groups g hg).words i hi).mono (List.subset_cons_self ..)
  · intro place hp
    obtain ⟨g, hg, hp⟩ := List.mem_flatMap.mp hp
    obtain ⟨t, ht, rfl⟩ := List.mem_map.mp hp
    obtain ⟨l, hl, hspan⟩ := List.mem_map.mp ((hgroups.groups g hg).transitions t ht).line
    exact ⟨l, .tail _ hl, hspan ▸ (ho.tokens l (.tail _ hl)).hasPlace_span⟩
  · refine Span.foldl_join_amid ?_ ?_
    · exact ⟨⟨line.span, .head _, hname.1⟩, ⟨line.span, .head _, hname.2⟩⟩
    · intro l hl
      exact Span.amid_of_mem (.tail _ (List.mem_map_of_mem hl))
  · exact Span.Row.cons_iff.mpr ⟨hparts.le, by simp, .nil⟩

theorem readSection_keepsTo (ho : LinesInOrder (line :: block)) : (readSection line block).KeepsTo (line :: block) := by
  have hline : line.InOrder := ho.tokens _ List.mem_cons_self
  unfold readSection
  split
  · next name label colon tokens hl =>
    split
    · next hname =>
      subst hname
      exact keepsTo_of_readTransitions hl ho
    · have hkeeps : (readList line ⟨name, label⟩ colon tokens).KeepsTo [line] := keepsTo_of_readList hline hl
      exact hkeeps.mono (by simp)
  · exact ⟨by simp, .nil⟩

/-- All that may be found wrong with lines is at places on them. -/
theorem LinesInOrder.placesIn (ho : LinesInOrder lines) : ∀ l ∈ lines, PlacesIn (OnLines lines) l := by
  intro l hl
  have hline := ho.tokens l hl
  refine ⟨⟨l, hl, hline.hasPlace_span⟩, ⟨l, hl, hline.hasPlace_span.atStop⟩, ?_, ?_⟩
  · intro t ht
    exact ⟨l, hl, hline.hasPlace ht⟩
  · intro t ht
    exact ⟨l, hl, (hline.hasPlace ht).atStart⟩

/-- Whatever lines are read as keeps to them. -/
theorem readSections_keepsTo (ho : LinesInOrder lines) : (readSections lines).KeepsTo lines := by
  fun_induction readSections lines with
  | case1 => exact ⟨by simp [Reading.empty], .nil⟩
  | case2 line rest hopens ih =>
    have hsplit : (line :: blockUnder line rest) ++ afterBlock line rest = line :: rest :=
      congrArg (line :: ·) List.takeWhile_append_dropWhile
    rw [← hsplit] at ho ⊢
    exact (readSection_keepsTo ho.left).append (ih ho.right) ho.lines
  | case3 line rest hopens ih =>
    rw [← List.singleton_append] at ho ⊢
    exact (readSection_keepsTo ho.left).append (ih ho.right) ho.lines

end Sections

end Pushdown
