/-
  Pushdown.Proofs.Wording — what is said about a definition is said on one line.

  A message quotes most of what it shows of the definition. What it shows as it stands is
  a label or a reserved name (`Problem.shown?`), and a label is a word of one line. So no
  message holds a line feed, be it of a finding (`lineFeed_notMem_of_findings`) or of a
  note (`note_of_problem`).
-/

import Pushdown.Proofs.Automaton.Faults
import Pushdown.Proofs.Place
import Pushdown.Proofs.Text.Quoted

namespace Pushdown

open Text

namespace Problem

/-- The part of a message that is shown as it stands in the definition. -/
def shown? : Problem → Option String
  | sectionRepeated label => some label
  | stateReserved name => some name
  | symbolReserved name => some name
  | _ => none

/-- Nothing that a message shows breaks its line. -/
def OneLine (p : Problem) : Prop := ∀ name ∈ p.shown?, '\n' ∉ name.toList

end Problem

theorem Problem.oneLine_of_none {p : Problem} (h : p.shown? = none) : p.OneLine := by
  intro name hn
  rw [h] at hn
  cases hn

/-! ## Messages -/

theorem Token.lineFeed_notMem_found (t : Token) : '\n' ∉ t.found.toList := by
  cases t with
  | word text => exact Quoted.lineFeed_notMem_ofString text
  | _ => exact notMem_literal (by decide)

theorem Halting.lineFeed_notMem_text (kind : Halting) : '\n' ∉ kind.text.toList := by
  cases kind <;> exact notMem_literal (by decide)

theorem Problem.OneLine.lineFeed_notMem {p : Problem} (h : p.OneLine) : '\n' ∉ p.message.toList := by
  unfold message
  cases p with
  | invalidChar c =>
    exact notMem_append (notMem_append (notMem_literal (by decide)) (Quoted.lineFeed_notMem_ofChar c))
      (notMem_literal (by decide))
  | unexpected got expected =>
    have hexpected : '\n' ∉ expected.text.toList := by cases expected <;> exact notMem_literal (by decide)
    have hgot : '\n' ∉ ("unexpected " ++ got.found).toList :=
      notMem_append (notMem_literal (by decide)) got.lineFeed_notMem_found
    exact notMem_append (notMem_append hgot (notMem_literal (by decide))) hexpected
  | sectionUnknown label =>
    have hlabels : '\n' ∉ (" | ".intercalate (SectionKind.all.map fun kind => "'" ++ kind.label ++ "'")).toList := by
      decide +kernel
    have hlabel : '\n' ∉ ("unknown section " ++ Quoted.ofString label).toList :=
      notMem_append (notMem_literal (by decide)) (Quoted.lineFeed_notMem_ofString label)
    exact notMem_append (notMem_append hlabel (notMem_literal (by decide))) hlabels
  | sectionRepeated label => exact notMem_append (h label rfl) (notMem_literal (by decide))
  | stateReserved name =>
    exact notMem_append (notMem_append (notMem_literal (by decide)) (h name rfl)) (notMem_literal (by decide))
  | symbolReserved name =>
    exact notMem_append (notMem_append (notMem_literal (by decide)) (h name rfl)) (notMem_literal (by decide))
  | haltingUndeclared kind => exact notMem_append kind.lineFeed_notMem_text (notMem_literal (by decide))
  | haltingRepeated kind => exact notMem_append kind.lineFeed_notMem_text (notMem_literal (by decide))
  | _ => exact notMem_literal (by decide)

/-- No note is an error, nor on more than one line. -/
theorem note_of_problem {p : Problem} {note : Remark} (h : note ∈ p.notes) :
    note.severity ≠ .error ∧ '\n' ∉ note.message.toList := by
  cases p with
  | notATransition =>
    obtain rfl := List.mem_singleton.mp h
    exact ⟨by decide, notMem_literal (by decide)⟩
  | notAHeader =>
    obtain rfl := List.mem_singleton.mp h
    exact ⟨by decide, notMem_literal (by decide)⟩
  | transitionSymbolUndeclared listed =>
    cases listed with
    | true => cases h
    | false =>
      obtain rfl := List.mem_singleton.mp h
      exact ⟨by decide, notMem_literal (by decide)⟩
  | transitionRepeated previous =>
    obtain rfl := List.mem_singleton.mp h
    exact ⟨nofun, notMem_literal (by decide)⟩
  | _ => cases h

/-! ## What is found -/

/-- Nothing that was found is told on more than one line. -/
def AllOneLine (findings : List Finding) : Prop := ∀ f ∈ findings, f.problem.OneLine

@[simp] theorem allOneLine_nil : AllOneLine [] := by simp [AllOneLine]

@[simp] theorem allOneLine_cons {f : Finding} {findings : List Finding} :
    AllOneLine (f :: findings) ↔ f.problem.OneLine ∧ AllOneLine findings := by simp [AllOneLine]

@[simp] theorem allOneLine_append {before after : List Finding} :
    AllOneLine (before ++ after) ↔ AllOneLine before ∧ AllOneLine after := List.forall_mem_append

theorem Problem.OfReading.oneLine {p : Problem} (h : p.OfReading) : p.OneLine := by
  cases p <;> first | exact oneLine_of_none rfl | exact h.elim

theorem Problem.OfTransitions.oneLine {p : Problem} (h : p.OfTransitions) : p.OneLine := by
  cases p <;> first | exact oneLine_of_none rfl | exact h.elim

theorem lineFeed_notMem_of_isReserved {name : String} (h : isReserved name = true) : '\n' ∉ name.toList := by
  rcases (by simpa [isReserved] using h : name = stackEnd ∨ name = inputEnd) with rfl | rfl
  · exact notMem_literal (by decide)
  · exact notMem_literal (by decide)

section Check

variable {κ : Type} [DecidableEq κ] {accept : String → Except Problem κ} {repeated missing empty : Problem}

/-- A name is refused on one line. -/
def RefusesOnOneLine (accept : String → Except Problem κ) : Prop := ∀ name p, accept name = .error p → p.OneLine

theorem refusesOnOneLine_state : RefusesOnOneLine acceptState := by
  intro name p h
  unfold acceptState at h
  split at h
  · next hr =>
    cases h
    intro shown hs
    cases hs
    exact lineFeed_notMem_of_isReserved hr
  · cases h

theorem refusesOnOneLine_symbol : RefusesOnOneLine acceptSymbol := by
  intro name p h
  unfold acceptSymbol at h
  split at h
  · next hr =>
    cases h
    intro shown hs
    cases hs
    exact lineFeed_notMem_of_isReserved hr
  · cases h

theorem refusesOnOneLine_letter : RefusesOnOneLine acceptLetter := by
  intro name p h
  unfold acceptLetter at h
  split at h
  · cases h
  · cases h
    split <;> exact Problem.oneLine_of_none rfl

theorem refusesOnOneLine_halting (kind : Halting) (states : Table State Span) :
    RefusesOnOneLine (acceptHalting kind states) := by
  intro name p h
  unfold acceptHalting at h
  split at h
  · cases h
  · cases h
    exact Problem.oneLine_of_none rfl

theorem declare_oneLine (ha : RefusesOnOneLine accept) (hr : repeated.OneLine) (t : Table κ Span) (names : List Ident) :
    AllOneLine (declare accept repeated t names).findings := by
  induction names generalizing t with
  | nil => exact allOneLine_nil
  | cons name rest ih =>
    unfold declare
    split
    · next p hp => exact allOneLine_cons.mpr ⟨ha _ _ hp, ih t⟩
    · simp only
      split
      · exact allOneLine_cons.mpr ⟨hr, ih _⟩
      · exact ih _

theorem declareSome_oneLine (ha : RefusesOnOneLine accept) (hr : repeated.OneLine) (hm : missing.OneLine)
    (he : empty.OneLine) (names? : Option (Located (List Ident))) :
    AllOneLine (declareSome accept repeated missing empty names?).findings := by
  cases names? with
  | none => exact List.forall_mem_singleton.mpr hm
  | some names =>
    refine allOneLine_append.mpr ⟨declare_oneLine ha hr _ _, ?_⟩
    split
    · exact List.forall_mem_singleton.mpr he
    · exact allOneLine_nil

variable {sections : List (Located Section)} {names? : Option (Located (List Ident))}

theorem checkLabels_oneLine (h : ∀ s ∈ sections, '\n' ∉ s.value.label.value.toList) (seen : List SectionKind) :
    AllOneLine (checkLabels seen sections) := by
  induction sections generalizing seen with
  | nil => exact allOneLine_nil
  | cons s rest ih =>
    obtain ⟨hs, hrest⟩ := List.forall_mem_cons.mp h
    unfold checkLabels
    split
    · exact allOneLine_cons.mpr ⟨Problem.oneLine_of_none rfl, ih hrest _⟩
    · split
      · refine allOneLine_cons.mpr ⟨?_, ih hrest _⟩
        intro shown hshown
        cases hshown
        exact hs
      · exact ih hrest _

theorem checkStackAlphabet_oneLine : AllOneLine (checkStackAlphabet names?).findings := by
  cases names? with
  | none => exact allOneLine_nil
  | some names => exact declare_oneLine refusesOnOneLine_symbol (Problem.oneLine_of_none rfl) _ _

theorem checkInitial_oneLine (states : Table State Span) : AllOneLine (checkInitial states names?).findings := by
  unfold checkInitial
  split
  · exact List.forall_mem_singleton.mpr (Problem.oneLine_of_none rfl)
  · split
    · exact allOneLine_nil
    · exact List.forall_mem_singleton.mpr (Problem.oneLine_of_none rfl)
  · exact List.forall_mem_singleton.mpr (Problem.oneLine_of_none rfl)

theorem checkHalting_oneLine {kind : Halting} (hm : missing.OneLine) (states : Table State Span) :
    AllOneLine (checkHalting kind missing states names?).findings := by
  cases names? with
  | none => exact List.forall_mem_singleton.mpr hm
  | some names => exact declare_oneLine (refusesOnOneLine_halting kind states) (Problem.oneLine_of_none rfl) _ _

theorem checkOverlap_oneLine (final rejecting : Table State Span) : AllOneLine (checkOverlap final rejecting) := by
  intro f hf
  obtain ⟨entry, -, rfl⟩ := List.mem_map.mp hf
  exact Problem.oneLine_of_none rfl

theorem checkMoves_oneLine (groups? : Option (List (Located StateGroup))) :
    AllOneLine (checkMoves (declaredIn sections) groups?).findings := by
  cases groups? with
  | none => exact List.forall_mem_singleton.mpr (Problem.oneLine_of_none rfl)
  | some groups =>
    intro f hf
    rw [checkMoves, checkGroups_finds [] groups (KeepsFirst.start sections)] at hf
    exact (ofTransitions_of_mem_blockFindings f hf).oneLine

theorem checkSections_oneLine (h : ∀ s ∈ sections, '\n' ∉ s.value.label.value.toList) :
    AllOneLine (checkSections sections).findings := by
  simp only [checkSections, allOneLine_append]
  refine ⟨⟨⟨⟨⟨⟨⟨⟨?_, ?_⟩, ?_⟩, ?_⟩, ?_⟩, ?_⟩, ?_⟩, ?_⟩, ?_⟩
  · exact checkLabels_oneLine h []
  · exact declareSome_oneLine refusesOnOneLine_state (Problem.oneLine_of_none rfl) (Problem.oneLine_of_none rfl) (Problem.oneLine_of_none rfl) _
  · exact declareSome_oneLine refusesOnOneLine_letter (Problem.oneLine_of_none rfl) (Problem.oneLine_of_none rfl) (Problem.oneLine_of_none rfl) _
  · exact checkStackAlphabet_oneLine
  · exact checkInitial_oneLine _
  · exact checkHalting_oneLine (Problem.oneLine_of_none rfl) _
  · exact checkHalting_oneLine (Problem.oneLine_of_none rfl) _
  · exact checkOverlap_oneLine _ _
  · exact checkMoves_oneLine _

end Check

/-- A word of a text is on one of its lines. -/
theorem lineFeed_notMem_of_isWordOf {source : String} {i : Ident} (h : i.IsWordOf (linesOf (scan source))) :
    '\n' ∉ i.value.toList := by
  obtain ⟨l, hl, hword⟩ := h
  obtain ⟨above, line, hline, hon⟩ := exists_on_of_mem hl
  obtain ⟨part, -, ⟨before, after, hsplit, -⟩, hname⟩ := hon.standsAt _ hword
  obtain rfl : i.value.toList = part := hname i.value rfl
  intro h
  refine hline.notMem ?_
  rw [hsplit]
  exact List.mem_append_left _ (List.mem_append_right _ h)

/-- Whatever is wrong with a text is told on one line. -/
theorem lineFeed_notMem_of_findings {source : String} {f : Finding} (h : f ∈ (Definition.ofSource source).findings) :
    '\n' ∉ f.problem.message.toList := by
  refine Problem.OneLine.lineFeed_notMem ?_
  rw [Definition.findings_ofSource] at h
  rcases List.mem_append.mp h with h | h
  · rcases List.mem_append.mp h with h | h
    · obtain ⟨c, -, rfl⟩ := List.mem_map.mp h
      exact Problem.oneLine_of_none rfl
    · have hplaces := (linesInOrder_scan source).placesIn
      obtain ⟨p, place, rfl, hp, -⟩ := Grammar.readAt_of_readSections hplaces h
      exact hp.oneLine
  · refine checkSections_oneLine ?_ f h
    intro s hs
    rw [sections_readDefinition] at hs
    refine lineFeed_notMem_of_isWordOf (((readSections_of_source source).sections s hs).words _ ?_)
    cases s.value <;> exact .head _

end Pushdown
