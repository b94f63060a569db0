/-
  Pushdown.Proofs.References — which undeclared names of transitions are reported.

  The transitions under a state that is not declared are left unchecked, and so is a block
  that a later one takes the place of. `undeclared_reported_iff`: of a text that is read
  without an error, the undeclared names of all other transitions are reported, each at its
  place, whatever else is wrong; and those of these are not, for the names of a text stand
  apart and nothing else is found where one of them stands.
-/

import Pushdown.Proofs.Automaton.Faults
import Pushdown.Proofs.Place

namespace Pushdown

/-- A name of a transition is not declared, or is none that may stand where it does. -/
inductive UndeclaredIn (sections : List (Located Section)) (t : TransitionLine) : Ident → Prop
  | letter : LetterFault sections t.letter.value → UndeclaredIn sections t t.letter
  | top : SymbolFault sections t.top.value → UndeclaredIn sections t t.top
  | next : ¬ DeclaresState sections t.next.value → UndeclaredIn sections t t.next
  | push (i : Ident) : i ∈ t.push.value → SymbolFault sections i.value → UndeclaredIn sections t i

theorem UndeclaredIn.mem_idents {sections : List (Located Section)} {t : TransitionLine} {i : Ident}
    (h : UndeclaredIn sections t i) : i ∈ t.idents := by
  cases h with
  | letter _ => exact .head _
  | top _ => exact .tail _ (.head _)
  | next _ => exact .tail _ (.tail _ (.head _))
  | push _ hi _ => exact .tail _ (.tail _ (.tail _ hi))

/-- A report has an error entry at a place. -/
def Report.HasErrorAt (r : Report) (place : Span) : Prop :=
  ∃ e ∈ r.entries, e.isError = true ∧ e.remark.place = some place

theorem Report.hasErrorAt_ofFindings {findings : List Finding} {place : Span} :
    (Report.ofFindings findings).HasErrorAt place ↔ Pushdown.HasErrorAt (· = place) findings := by
  unfold Report.HasErrorAt Pushdown.HasErrorAt
  simp only [← Array.mem_toList_iff, Report.toList_entries_ofFindings]
  refine ⟨?_, ?_⟩
  · intro h
    obtain ⟨e, hmem, he, hplace⟩ := h
    obtain ⟨f, hf, rfl⟩ := List.mem_map.mp hmem
    exact ⟨f, hf, he, place, hplace, rfl⟩
  · intro h
    obtain ⟨f, hf, he, s, hplace, rfl⟩ := h
    exact ⟨f.entry, List.mem_map_of_mem hf, he, hplace⟩

/-! ## What is reported -/

section Reported

variable {sections : List (Located Section)} {t : TransitionLine} {i : Ident}

theorem hasErrorAt_problemIf {faulty : Prop} [Decidable faulty] (h : faulty) {p : Problem} (hp : p.OfTransitions)
    (place : Span) : HasErrorAt (· = place) (problemIf faulty p place) := by
  rw [problemIf_of_pos h]
  exact ⟨_, List.mem_cons_self, beq_iff_eq.mpr hp.severity_eq, place, rfl, rfl⟩

/-- An undeclared name is among the faults of its transition. -/
theorem hasErrorAt_nameFaults (h : UndeclaredIn sections t i) : HasErrorAt (· = i.span) (nameFaults sections t) := by
  unfold nameFaults
  cases h with
  | letter h => exact (hasErrorAt_problemIf h (letterProblem_ofTransitions _) _).left.left.left
  | top h => exact (hasErrorAt_problemIf h (symbolProblem_ofTransitions _) _).right.left.left
  | next h => exact (hasErrorAt_problemIf h (by trivial) _).right.left
  | push i hi h =>
    obtain ⟨k, hk⟩ := List.getElem?_of_mem hi
    have hpush : HasErrorAt (· = i.span) (problemIf (PushFault sections t.top.value k i.value)
        (pushProblem sections i.value) i.span) := hasErrorAt_problemIf (.inl h) (pushProblem_ofTransitions _) _
    refine (hpush.mono ?_ fun _ hp => hp).right
    intro f hf
    exact List.mem_flatMap.mpr ⟨(i, k), List.mk_mem_zipIdx_iff_getElem?.mpr hk, hf⟩

/-- Every element of a list stands there with those before it. -/
theorem exists_mem_withEarlier {α : Type} (earlier : List α) {l : List α} {a : α} (h : a ∈ l) :
    ∃ before, (before, a) ∈ withEarlier earlier l := by
  induction l generalizing earlier with
  | nil => cases h
  | cons b rest ih =>
    rcases List.mem_cons.mp h with rfl | h
    · exact ⟨earlier, .head _⟩
    · obtain ⟨before, hmem⟩ := ih (earlier ++ [b]) h
      exact ⟨before, .tail _ hmem⟩

/-- What is wrong with the names of a transition under a declared state is found. -/
theorem nameFaults_subset_blockFindings {groups : List (Located StateGroup)} {g : Located StateGroup} (hg : g ∈ groups)
    (hstate : DeclaresState sections g.value.state.value) {t : Located TransitionLine}
    (ht : t ∈ g.value.transitions) : nameFaults sections t.value ⊆ blockFindings sections groups := by
  obtain ⟨before, hbefore⟩ := exists_mem_withEarlier [] hg
  have hp : Departure.mk g.value.state.value t ∈ g.value.departures := List.mem_map_of_mem ht
  obtain ⟨earlier, hearlier⟩ := exists_mem_withEarlier (checkedDepartures sections before) hp
  intro f hf
  refine List.mem_flatMap.mpr ⟨(before, g), hbefore, ?_⟩
  simp only [groupFindings, if_pos hstate]
  exact List.mem_flatMap.mpr ⟨_, hearlier, List.mem_append_left _ hf⟩

end Reported

/-! ## What is not reported -/

section Hidden

variable {sections before after : List (Located Section)} {s : Located Section} {label : Ident}
  {groups : List (Located StateGroup)} {g : Located StateGroup} {t : Located TransitionLine} {i : Ident}

/-- A name of a transition, in sections that are in place. -/
structure StandsUnder (sections : List (Located Section)) (s : Located Section) (label : Ident)
    (groups : List (Located StateGroup)) (g : Located StateGroup) (t : Located TransitionLine) (i : Ident) : Prop where
  row : Span.Row (sections.map Located.span)
  nested : ∀ s ∈ sections, Section.Nested s
  mem : s ∈ sections
  value : s.value = .transitions label groups
  group : g ∈ groups
  transition : t ∈ g.value.transitions
  ident : i ∈ t.value.idents
  ne_empty : i.span.start < i.span.stop

namespace StandsUnder

variable (h : StandsUnder sections s label groups g t i)

include h

theorem block : s.span.Holds (label.span :: groups.map Located.span) ∧ ∀ g ∈ groups, StateGroup.Nested g := by
  have hnested := h.nested s h.mem
  rw [Section.Nested, h.value] at hnested
  exact hnested

theorem in_transition : t.span.Encloses i.span :=
  ((h.block.2 g h.group).transitions t h.transition).encloses i h.ident

theorem in_group : g.span.Encloses i.span :=
  ((h.block.2 g h.group).encloses_transition t h.transition).trans h.in_transition

theorem in_section : s.span.Encloses i.span :=
  Span.Encloses.trans (h.block.1.encloses _ (.tail _ (List.mem_map_of_mem h.group))) h.in_group

/-- It does not stand where a name of another section does, nor where a part of one does. -/
theorem admits_of_ne {s' : Located Section} (hs : s' ∈ sections) (hne : s' ≠ s) : s'.value.Admits (· ≠ i.span) := by
  have hadmits := (h.nested s' hs).encloses
  have hapart := h.row.apart hs h.mem hne
  exact ⟨fun j hj => hapart.ne (hadmits.idents j hj) h.in_section h.ne_empty,
    fun place hplace => hapart.ne (hadmits.inner place hplace) h.in_section h.ne_empty⟩

/-- Nor where the label of its section does. -/
theorem label_ne : label.span ≠ i.span := by
  have hbefore := (Span.Row.cons_iff.mp h.block.1.row).2.1 g.span (List.mem_map_of_mem h.group)
  exact Span.Apart.ne (.inl hbefore) (.refl _) h.in_group h.ne_empty

theorem group_apart {g' : Located StateGroup} (hg : g' ∈ groups) (hne : g' ≠ g) : g'.span.Apart g.span :=
  (Span.Row.cons_iff.mp h.block.1.row).2.2.apart hg h.group hne

/-- Nor where the state over some transitions does. -/
theorem state_ne : ∀ g' ∈ groups, g'.value.state.span ≠ i.span := by
  intro g' hg
  by_cases hne : g' = g
  · subst hne
    exact ((h.block.2 g' hg).state_apart t h.transition).ne (.refl _) h.in_transition h.ne_empty
  · exact (h.group_apart hg hne).ne ((h.block.2 g' hg).encloses _ (.head _)) h.in_group h.ne_empty

/-- Nor where a transition of another group does, or a name in one. -/
theorem transition_ne {g' : Located StateGroup} (hg : g' ∈ groups) (hne : g' ≠ g) :
    ∀ t' ∈ g'.value.transitions, t'.span ≠ i.span ∧ ∀ j ∈ t'.value.idents, j.span ≠ i.span := by
  intro t' ht
  have hapart := h.group_apart hg hne
  have hnested := h.block.2 g' hg
  refine ⟨hapart.ne (hnested.encloses_transition t' ht) h.in_group h.ne_empty, ?_⟩
  intro j hj
  exact hapart.ne ((hnested.encloses_transition t' ht).trans ((hnested.transitions t' ht).encloses j hj)) h.in_group
    h.ne_empty

/-- Without any transitions nothing is found where it stands. -/
theorem withoutTransitions_at : AllAt (· ≠ i.span) (checkSections (withoutTransitions sections)).findings := by
  refine checkSections_at ?_
  intro emptied hemptied
  obtain ⟨s', hs, rfl⟩ := List.mem_map.mp hemptied
  by_cases hne : s' = s
  · subst hne
    rw [h.value]
    exact ⟨List.forall_mem_singleton.mpr h.label_ne, nofun⟩
  · have hadmits := h.admits_of_ne hs hne
    cases hv : s'.value with
    | list _ _ =>
      rw [hv] at hadmits
      exact hadmits
    | transitions _ _ =>
      rw [hv] at hadmits
      exact ⟨List.forall_mem_singleton.mpr (hadmits.idents _ (.head _)), nofun⟩

end StandsUnder

theorem blocksOf_split (hv : s.value = .transitions label groups) :
    blocksOf (before ++ s :: after) = blocksOf before ++ groups :: blocksOf after := by
  rw [blocksOf, List.filterMap_append, List.filterMap_cons, hv]
  rfl

/-- Nothing is found where it stands if the groups that count have nothing there to check. -/
theorem StandsUnder.checkSections_at (h : StandsUnder sections s label groups g t i)
    {last : List (Located StateGroup)} (hlast : (blocksOf sections).getLast? = some last)
    (hg : ∀ g' ∈ last, g'.value.state.span ≠ i.span ∧ ∀ q, (declaredIn sections).state g'.value.state = .ok q →
      ∀ t' ∈ g'.value.transitions, t'.span ≠ i.span ∧ ∀ j ∈ t'.value.idents, j.span ≠ i.span) :
    AllAt (· ≠ i.span) (checkSections sections).findings := by
  rw [findings_checkSections hlast]
  exact allAt_append.mpr ⟨h.withoutTransitions_at, checkGroups_at Table.values_empty hg⟩

/-- The transitions of a state that is not declared, or of a block with a later one, are not
    looked at. -/
theorem StandsUnder.not_reported (h : StandsUnder (before ++ s :: after) s label groups g t i)
    (hskip : ¬ (DeclaresState (before ++ s :: after) g.value.state.value ∧ blocksOf after = [])) :
    AllAt (· ≠ i.span) (checkSections (before ++ s :: after)).findings := by
  have hblocks := @blocksOf_split before after s label groups h.value
  rcases List.eq_nil_or_concat (blocksOf after) with hlast | ⟨earlier, last, hlast⟩
  · -- the block counts, so the state is not declared
    have hstate : ¬ DeclaresState (before ++ s :: after) g.value.state.value := fun hd => hskip ⟨hd, hlast⟩
    rw [hlast] at hblocks
    refine h.checkSections_at (hblocks ▸ List.getLast?_concat) ?_
    intro g' hg
    refine ⟨h.state_ne g' hg, ?_⟩
    intro q hq
    have hdeclared : DeclaresState (before ++ s :: after) g'.value.state.value := by
      rw [state_eq] at hq
      by_contra hn
      rw [if_neg hn] at hq
      cases hq
    refine h.transition_ne hg ?_
    rintro rfl
    exact hstate hdeclared
  · -- a later block counts, and all of it stands elsewhere
    have hmem : last ∈ blocksOf after := by simp [hlast]
    obtain ⟨s', hs, hv⟩ := List.mem_filterMap.mp hmem
    have hne : s' ≠ s := by
      rintro rfl
      have hrow := h.row
      rw [List.map_append, List.map_cons] at hrow
      have hbefore := (Span.Row.cons_iff.mp (hrow.sublist (List.sublist_append_right ..))).2.1
      exact Span.Apart.ne (.inl (hbefore s'.span (List.mem_map_of_mem hs))) h.in_section h.in_section h.ne_empty rfl
    have hadmits := h.admits_of_ne (by simp [hs]) hne
    rw [hlast, List.concat_eq_append, ← List.cons_append, ← List.append_assoc] at hblocks
    refine h.checkSections_at (hblocks ▸ List.getLast?_concat) ?_
    intro g' hg
    exact (hadmits.groups hv g' hg).imp_right fun ht _ _ => ht

end Hidden

/-- In every text that is read without an error, an undeclared name of a transition is
    reported where it stands exactly when the state over the transition is declared and no
    later block takes the place of its own, whatever else is wrong. -/
theorem undeclared_reported_iff {source : String} (hr : Clean (readDefinition source).findings)
    {before after : List (Located Section)} {s : Located Section}
    (hs : (readDefinition source).sections = before ++ s :: after) {label : Ident} {groups : List (Located StateGroup)}
    (hv : s.value = .transitions label groups) {g : Located StateGroup} (hg : g ∈ groups)
    {t : Located TransitionLine} (ht : t ∈ g.value.transitions) {i : Ident}
    (hi : UndeclaredIn (readDefinition source).sections t.value i) :
    (Definition.ofSource source).report.HasErrorAt i.span ↔
      DeclaresState (readDefinition source).sections g.value.state.value ∧ blocksOf after = [] := by
  obtain ⟨hrow, hplaces⟩ := sections_in_place source
  have hmem : s ∈ (readDefinition source).sections := by simp [hs]
  have hident : i ∈ s.value.idents := by
    rw [hv]
    exact .tail _ (List.mem_flatMap.mpr ⟨g, hg, .tail _ (List.mem_flatMap.mpr ⟨t, ht, hi.mem_idents⟩)⟩)
  have hstands : StandsUnder (readDefinition source).sections s label groups g t i :=
    ⟨hrow, fun s hs => (hplaces s hs).1, hmem, hv, hg, ht, hi.mem_idents, ((hplaces s hmem).2 i hident).bounds.1⟩
  rw [Definition.report, Report.hasErrorAt_ofFindings, Definition.findings_ofSource]
  refine ⟨?_, ?_⟩
  · intro h
    obtain ⟨f, hf, herror, place, hplace, rfl⟩ := h
    by_contra hskip
    rcases List.mem_append.mp hf with hf | hf
    · exact absurd herror (by simp [hr f hf])
    · rw [hs] at hstands hskip hf
      exact (Finding.at_iff.mp (hstands.not_reported hskip f hf)).1 _ hplace rfl
  · intro h
    obtain ⟨hstate, hlast⟩ := h
    have hgroups : (blocksOf (readDefinition source).sections).getLast? = some groups := by
      rw [hs, blocksOf_split hv, hlast, List.getLast?_concat]
    refine (hasErrorAt_nameFaults hi).mono ?_ fun _ hp => hp
    refine List.Subset.trans ?_ (List.subset_append_right ..)
    rw [findings_checkSections hgroups, checkGroups_finds [] groups (KeepsFirst.start _)]
    exact List.Subset.trans (nameFaults_subset_blockFindings hg hstate ht) (List.subset_append_right ..)

/-- One transition with a letter that is not declared, under a state that is not declared
    and again under one that is. -/
def strayHeader : String :=
  "states:q\nalphabet:a\ninitial_state:q\nfinal_states:\ntransition_function:\n" ++
  " r:\n  (b,STACK_END)->q[]\n q:\n  (b,STACK_END)->q[]"

/-- A group of one transition, `(b,STACK_END)->q[]`, that begins at an offset. -/
def strayGroup (state : String) (start : Nat) : Located StateGroup :=
  ⟨⟨⟨state, ⟨start, start + 1⟩⟩, [⟨⟨⟨"b", ⟨start + 6, start + 7⟩⟩, ⟨"STACK_END", ⟨start + 8, start + 17⟩⟩,
    ⟨"q", ⟨start + 20, start + 21⟩⟩, ⟨[], ⟨start + 21, start + 23⟩⟩⟩, ⟨start + 5, start + 23⟩⟩]⟩, ⟨start, start + 23⟩⟩

/-- The block of `strayHeader`. -/
def strayBlock : Located Section :=
  ⟨.transitions ⟨"transition_function", ⟨50, 69⟩⟩ [strayGroup "r" 72, strayGroup "q" 97], ⟨50, 120⟩⟩

/-- The lists of `strayHeader`. -/
def strayLists : List (Located Section) :=
  [⟨.list ⟨"states", ⟨0, 6⟩⟩ ⟨[⟨"q", ⟨7, 8⟩⟩], ⟨7, 8⟩⟩, ⟨0, 8⟩⟩,
    ⟨.list ⟨"alphabet", ⟨9, 17⟩⟩ ⟨[⟨"a", ⟨18, 19⟩⟩], ⟨18, 19⟩⟩, ⟨9, 19⟩⟩,
    ⟨.list ⟨"initial_state", ⟨20, 33⟩⟩ ⟨[⟨"q", ⟨34, 35⟩⟩], ⟨34, 35⟩⟩, ⟨20, 35⟩⟩,
    ⟨.list ⟨"final_states", ⟨36, 48⟩⟩ ⟨[], ⟨49, 49⟩⟩, ⟨36, 49⟩⟩]

theorem read_strayHeader : readDefinition strayHeader = ⟨strayLists ++ strayBlock :: [], []⟩ := by
  decide +kernel

theorem letterFault_strayHeader : LetterFault (readDefinition strayHeader).sections "b" := by
  rw [read_strayHeader]
  decide

/-- Only the second of the two letters is reported. -/
theorem reported_of_strayHeader :
    ¬ (Definition.ofSource strayHeader).report.HasErrorAt ⟨78, 79⟩ ∧
      (Definition.ofSource strayHeader).report.HasErrorAt ⟨103, 104⟩ := by
  have hclean : Clean (readDefinition strayHeader).findings := by
    rw [read_strayHeader]
    exact clean_nil
  have hsections : (readDefinition strayHeader).sections = strayLists ++ strayBlock :: [] := by rw [read_strayHeader]
  have hstates : ¬ DeclaresState (readDefinition strayHeader).sections "r" ∧
      DeclaresState (readDefinition strayHeader).sections "q" := by
    rw [read_strayHeader]
    decide
  have hletter := letterFault_strayHeader
  have hhidden := undeclared_reported_iff hclean hsections rfl (.head _) (.head _) (.letter hletter)
  have hshown := undeclared_reported_iff hclean hsections rfl (.tail _ (.head _)) (.head _) (.letter hletter)
  exact ⟨fun h => hstates.1 (hhidden.mp h).1, hshown.mpr ⟨hstates.2, rfl⟩⟩

/-- A state that is not declared hides what is wrong under it. -/
theorem not_all_undeclared_reported :
    ¬ ∀ source, Clean (readDefinition source).findings →
      ∀ groups ∈ blocksOf (readDefinition source).sections, ∀ g ∈ groups, ∀ t ∈ g.value.transitions, ∀ i,
        UndeclaredIn (readDefinition source).sections t.value i →
          (Definition.ofSource source).report.HasErrorAt i.span := by
  intro h
  have hall := h strayHeader
  rw [Definition.ofSource, read_strayHeader] at hall
  have hletter : LetterFault (strayLists ++ strayBlock :: []) "b" := by decide
  have hblock : [strayGroup "r" 72, strayGroup "q" 97] ∈ blocksOf (strayLists ++ strayBlock :: []) := .head _
  have hreported := hall clean_nil _ hblock _ (.head _) _ (.head _) _ (.letter hletter)
  have hnone : ∀ e ∈ (Definition.ofReading ⟨strayLists ++ strayBlock :: [], []⟩).report.entries.toList,
      e.remark.place ≠ some ⟨78, 79⟩ := by decide
  obtain ⟨e, he, -, hplace⟩ := hreported
  exact hnone e (Array.mem_toList_iff.mpr he) hplace

end Pushdown
