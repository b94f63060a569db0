/-
  Pushdown.Proofs.Automaton.Order — the order of the sections does not matter.

  The check collects the sections by their labels before it looks into any of them. Where a
  label is unknown or stands twice there is no automaton, in whatever order; where none is,
  each kind has at most one section, and to be the last of its kind does not depend on the
  order. All that is left of the order are the unknown labels, which are reported as they
  stand (`ofSections_of_perm`).
-/

import Pushdown.Proofs.Automaton.Moves
import Pushdown.Proofs.Report

namespace Pushdown

/-- No section of a known kind stands twice. -/
def Unrepeated (sections : List (Located Section)) : Prop := ∀ kind, countKind kind sections ≤ 1

/-- Two reports have the same entries in the same order, but for the unknown labels at
    their beginning, and both hold an error or neither does. -/
structure Report.SameButUnknownLabels (r r' : Report) : Prop where
  entries : ∃ unknown unknown' others,
    r.entries.toList = unknown ++ others ∧ r'.entries.toList = unknown' ++ others ∧ unknown.Perm unknown' ∧
      ∀ e ∈ unknown, ∃ label place, e = ((Problem.sectionUnknown label).here place).entry
  hasError : r.hasError = r'.hasError

/-! ## Sections of a kind -/

section Perm

variable {sections sections' : List (Located Section)}

theorem eq_of_perm_of_length_le_one {α : Type} {l l' : List α} (h : l.Perm l') (hl : l.length ≤ 1) : l = l' := by
  match l, hl with
  | [], _ => exact h.nil_eq
  | [a], _ => exact (List.perm_singleton.mp h.symm).symm

theorem countKind_perm (h : sections.Perm sections') (kind : SectionKind) :
    countKind kind sections = countKind kind sections' :=
  h.countP_eq _

theorem lastNames_perm (h : sections.Perm sections') (hu : Unrepeated sections) {kind : SectionKind}
    (hk : kind ≠ .transitionFunction) : lastNames kind sections = lastNames kind sections' := by
  have hone : (sections.filterMap fun s => s.value.names? kind).length ≤ 1 := by
    rw [names?_eq_listsUnder hk, length_listsUnder hk]
    exact hu kind
  rw [lastNames, lastNames, eq_of_perm_of_length_le_one (h.filterMap _) hone]

theorem lastGroups_perm (h : sections.Perm sections') (hu : Unrepeated sections) :
    lastGroups sections = lastGroups sections' := by
  have hone : (sections.filterMap fun s => s.value.groups?).length ≤ 1 := by
    rw [← blocksOf, length_blocksOf]
    exact hu .transitionFunction
  rw [lastGroups, lastGroups, eq_of_perm_of_length_le_one (h.filterMap _) hone]

/-! ## Labels -/

/-- The labels that are not known, as they stand. -/
def unknownLabels (sections : List (Located Section)) : List Finding :=
  sections.filterMap fun s => match s.value.kind? with
    | none => some ((Problem.sectionUnknown s.value.label.value).here s.value.label.span)
    | some _ => none

theorem checkLabels_of_unrepeated {seen : List SectionKind}
    (h : ∀ kind, countKind kind sections ≤ if kind ∈ seen then 0 else 1) :
    checkLabels seen sections = unknownLabels sections := by
  induction sections generalizing seen with
  | nil => rfl
  | cons s rest ih =>
    have hrest : ∀ kind, countKind kind rest ≤ countKind kind (s :: rest) := fun kind =>
      (List.sublist_cons_self s rest).countP_le
    cases hk : s.value.kind? with
    | none =>
      rw [checkLabels, unknownLabels, List.filterMap_cons]
      simp only [hk]
      rw [ih fun kind => Nat.le_trans (hrest kind) (h kind)]
      rfl
    | some kind =>
      have hcount : countKind kind (s :: rest) = countKind kind rest + 1 := by simp [countKind, hk]
      have hnew : kind ∉ seen := by
        intro hseen
        have hzero := h kind
        rw [if_pos hseen] at hzero
        omega
      have honce : ∀ other, countKind other rest ≤ if other ∈ kind :: seen then 0 else 1 := by
        intro other
        have hother := h other
        by_cases he : other = kind
        · subst he
          rw [if_neg hnew] at hother
          rw [if_pos List.mem_cons_self]
          omega
        · have hle := Nat.le_trans (hrest other) hother
          simpa [he] using hle
      rw [checkLabels, unknownLabels, List.filterMap_cons]
      simp only [hk]
      rw [if_neg hnew, ih honce]
      rfl

theorem unknownLabels_of_mem {f : Finding} (h : f ∈ unknownLabels sections) :
    ∃ label place, f = (Problem.sectionUnknown label).here place := by
  obtain ⟨s, -, hs⟩ := List.mem_filterMap.mp h
  cases hk : s.value.kind? with
  | none =>
    rw [hk] at hs
    cases hs
    exact ⟨_, _, rfl⟩
  | some kind =>
    rw [hk] at hs
    cases hs

theorem checkLabels_clean_perm (h : sections.Perm sections') :
    Clean (checkLabels [] sections) ↔ Clean (checkLabels [] sections') := by
  rw [checkLabels_clean, checkLabels_clean]
  refine and_congr ?_ ?_
  · exact ⟨fun hs s hmem => hs s (h.mem_iff.mpr hmem), fun hs s hmem => hs s (h.mem_iff.mp hmem)⟩
  · exact forall_congr' fun kind => by rw [countKind_perm h]

/-! ## All sections -/

/-- Past the labels the check sees only the last section of each kind. -/
theorem checkSections_congr
    (hnames : ∀ kind, kind ≠ .transitionFunction → lastNames kind sections = lastNames kind sections')
    (hgroups : lastGroups sections = lastGroups sections') :
    (checkSections sections).value = (checkSections sections').value ∧ ∃ others,
      (checkSections sections).findings = checkLabels [] sections ++ others ∧
      (checkSections sections').findings = checkLabels [] sections' ++ others := by
  have hstates := hnames .states (by simp)
  have halphabet := hnames .alphabet (by simp)
  have hstack := hnames .stackAlphabet (by simp)
  have hinitial := hnames .initialState (by simp)
  have hfinal := hnames .finalStates (by simp)
  have hrejecting := hnames .rejectingStates (by simp)
  simp only [checkSections, hstates, halphabet, hstack, hinitial, hfinal, hrejecting, hgroups, List.append_assoc]
  exact ⟨trivial, _, rfl, rfl⟩

theorem checkSections_perm (h : sections.Perm sections') (hu : Unrepeated sections) :
    (checkSections sections).value = (checkSections sections').value ∧ ∃ others,
      (checkSections sections).findings = unknownLabels sections ++ others ∧
      (checkSections sections').findings = unknownLabels sections' ++ others := by
  have hu' : Unrepeated sections' := fun kind => countKind_perm h kind ▸ hu kind
  have hcongr := checkSections_congr (fun kind hk => lastNames_perm h hu hk) (lastGroups_perm h hu)
  rwa [checkLabels_of_unrepeated (by simpa [Unrepeated] using hu),
    checkLabels_of_unrepeated (by simpa [Unrepeated] using hu')] at hcongr

theorem unrepeated_of_clean (h : Clean (checkLabels [] sections)) : Unrepeated sections := by
  intro kind
  simpa using (checkLabels_clean.mp h).2 kind

/-- Labels that are at fault leave no automaton. -/
theorem automaton_of_not_clean (h : ¬ Clean (checkLabels [] sections)) :
    (Definition.ofSections sections).automaton = none := by
  cases ha : (Definition.ofSections sections).automaton with
  | none => rfl
  | some a =>
    obtain ⟨-, hw, -⟩ := automaton_ofReading.mp ha
    exact absurd hw.complete.checkLabels h

theorem automaton_perm (h : sections.Perm sections') :
    (Definition.ofSections sections).automaton = (Definition.ofSections sections').automaton := by
  by_cases hc : Clean (checkLabels [] sections)
  · obtain ⟨hvalue, others, hf, hf'⟩ := checkSections_congr
      (fun kind hk => lastNames_perm h (unrepeated_of_clean hc) hk) (lastGroups_perm h (unrepeated_of_clean hc))
    have hlabels := any_isError_eq_false.mpr hc
    have hlabels' := any_isError_eq_false.mpr ((checkLabels_clean_perm h).mp hc)
    simp only [Definition.ofSections, Definition.ofReading_eq, hvalue, hf, hf', List.nil_append, List.any_append, hlabels,
      hlabels', Bool.false_or]
  · rw [automaton_of_not_clean hc, automaton_of_not_clean fun hc' => hc ((checkLabels_clean_perm h).mpr hc')]

theorem report_perm (h : sections.Perm sections') (hu : Unrepeated sections) :
    (Definition.ofSections sections).report.SameButUnknownLabels (Definition.ofSections sections').report := by
  obtain ⟨-, others, hf, hf'⟩ := checkSections_perm h hu
  have hunknown : (unknownLabels sections).Perm (unknownLabels sections') := h.filterMap _
  refine ⟨⟨(unknownLabels sections).map Finding.entry, (unknownLabels sections').map Finding.entry,
    others.map Finding.entry, ?_, ?_, hunknown.map _, ?_⟩, ?_⟩
  · simp [Definition.report, Definition.ofSections, Definition.ofReading_eq, hf]
  · simp [Definition.report, Definition.ofSections, Definition.ofReading_eq, hf']
  · intro e he
    obtain ⟨f, hmem, rfl⟩ := List.mem_map.mp he
    obtain ⟨label, place, rfl⟩ := unknownLabels_of_mem hmem
    exact ⟨label, place, rfl⟩
  · simp [Definition.report, Definition.ofSections, Definition.ofReading_eq, hf, hf', hunknown.any_eq]

end Perm

/-- Sections may stand in any order: they define the same automaton, with its tables in the
    same order and the names at the same places, or none. If none stands twice, what is
    reported on them is the same but for the order of the unknown labels. -/
theorem ofSections_of_perm {sections sections' : List (Located Section)} (h : sections.Perm sections') :
    (Definition.ofSections sections).automaton = (Definition.ofSections sections').automaton ∧
      (Unrepeated sections →
        (Definition.ofSections sections).report.SameButUnknownLabels (Definition.ofSections sections').report) :=
  ⟨automaton_perm h, report_perm h⟩

/-- A state that is initial and final, a letter and one transition, which comes first. -/
def scattered : List (Located Section) :=
  [⟨.transitions ⟨"transition_function", ⟨0, 19⟩⟩
      [⟨⟨⟨"p", ⟨22, 23⟩⟩, [⟨⟨⟨"a", ⟨28, 29⟩⟩, ⟨"STACK_END", ⟨30, 39⟩⟩, ⟨"p", ⟨42, 43⟩⟩, ⟨[⟨"a", ⟨44, 45⟩⟩], ⟨43, 46⟩⟩⟩,
        ⟨27, 46⟩⟩]⟩, ⟨22, 46⟩⟩], ⟨0, 46⟩⟩,
    ⟨.list ⟨"final_states", ⟨47, 59⟩⟩ ⟨[⟨"p", ⟨60, 61⟩⟩], ⟨60, 61⟩⟩, ⟨47, 61⟩⟩,
    ⟨.list ⟨"initial_state", ⟨62, 75⟩⟩ ⟨[⟨"p", ⟨76, 77⟩⟩], ⟨76, 77⟩⟩, ⟨62, 77⟩⟩,
    ⟨.list ⟨"alphabet", ⟨78, 86⟩⟩ ⟨[⟨"a", ⟨87, 88⟩⟩], ⟨87, 88⟩⟩, ⟨78, 88⟩⟩,
    ⟨.list ⟨"states", ⟨89, 95⟩⟩ ⟨[⟨"p", ⟨96, 97⟩⟩], ⟨96, 97⟩⟩, ⟨89, 97⟩⟩]

/-- A list under a label that is not known. -/
def unlisted (label : String) (place : Span) : Located Section := ⟨.list ⟨label, place⟩ ⟨[], place⟩, place⟩

theorem ofSections_of_scattered :
    scattered.reverse.Perm scattered ∧
      (unlisted "x" ⟨98, 99⟩ :: unlisted "y" ⟨100, 101⟩ :: scattered).reverse.Perm
        (unlisted "x" ⟨98, 99⟩ :: unlisted "y" ⟨100, 101⟩ :: scattered) ∧
      Unrepeated (unlisted "x" ⟨98, 99⟩ :: unlisted "y" ⟨100, 101⟩ :: scattered).reverse ∧
      (Definition.ofSections scattered.reverse).automaton = (Definition.ofSections scattered).automaton ∧
      (Definition.ofSections scattered).automaton.isSome = true ∧
      (Definition.ofSections (unlisted "x" ⟨98, 99⟩ :: unlisted "y" ⟨100, 101⟩ :: scattered).reverse).report.SameButUnknownLabels
        (Definition.ofSections (unlisted "x" ⟨98, 99⟩ :: unlisted "y" ⟨100, 101⟩ :: scattered)).report := by
  have hu : Unrepeated (unlisted "x" ⟨98, 99⟩ :: unlisted "y" ⟨100, 101⟩ :: scattered).reverse := by
    intro kind
    cases kind <;> decide
  exact ⟨List.reverse_perm _, List.reverse_perm _, hu, (ofSections_of_perm (List.reverse_perm _)).1, by decide,
    (ofSections_of_perm (List.reverse_perm _)).2 hu⟩

end Pushdown
