/-
  Pushdown.Proofs.Automaton.Place — where the findings of the check are.

  The check makes up no places: whatever it finds is at the place of a name, of a list or
  of a transition of the sections, and so are its notes (`checkSections_at`). A note
  may point back to what was declared before, so the tables must keep such places only.
-/

import Pushdown.Proofs.Automaton.Resolution
import Pushdown.Proofs.Section.Place

namespace Pushdown

variable {P : Span → Prop}

/-- All places in a section that something may be found wrong with are of some kind. -/
structure Section.Admits (P : Span → Prop) (s : Section) : Prop where
  idents : ∀ i ∈ s.idents, P i.span
  inner : ∀ place ∈ s.inner, P place

/-- A section encloses all of them. -/
theorem Section.Nested.encloses {s : Located Section} (h : Section.Nested s) :
    s.value.Admits s.span.Encloses := by
  unfold Section.Nested at h
  cases hv : s.value with
  | list label items =>
    rw [hv] at h
    have hlabel : s.span.Encloses label.span := h.1.encloses _ (.head _)
    have hitems : s.span.Encloses items.span := h.1.encloses _ (.tail _ (.head _))
    refine ⟨List.forall_mem_cons.mpr ⟨hlabel, ?_⟩, List.forall_mem_singleton.mpr hitems⟩
    intro i hi
    exact hitems.trans (h.2.encloses _ (List.mem_map_of_mem hi))
  | transitions label groups =>
    rw [hv] at h
    have hlabel : s.span.Encloses label.span := h.1.encloses _ (.head _)
    have hgroup : ∀ g ∈ groups, s.span.Encloses g.span := fun g hg => h.1.encloses _ (.tail _ (List.mem_map_of_mem hg))
    refine ⟨List.forall_mem_cons.mpr ⟨hlabel, ?_⟩, ?_⟩
    · intro i hi
      obtain ⟨g, hg, hi⟩ := List.mem_flatMap.mp hi
      exact (hgroup g hg).trans ((h.2 g hg).encloses i hi)
    · intro place hplace
      obtain ⟨g, hg, hplace⟩ := List.mem_flatMap.mp hplace
      obtain ⟨t, ht, rfl⟩ := List.mem_map.mp hplace
      exact (hgroup g hg).trans ((h.2 g hg).encloses_transition t ht)

/-- All findings and their notes are at places of some kind. -/
def AllAt (P : Span → Prop) (findings : List Finding) : Prop := ∀ f ∈ findings, f.At P

@[simp] theorem allAt_nil : AllAt P [] := by simp [AllAt]

@[simp] theorem allAt_cons {f : Finding} {findings : List Finding} :
    AllAt P (f :: findings) ↔ f.At P ∧ AllAt P findings := by simp [AllAt]

@[simp] theorem allAt_append {before after : List Finding} :
    AllAt P (before ++ after) ↔ AllAt P before ∧ AllAt P after := List.forall_mem_append

/-! ## Tables -/

/-- All values of a table are of some kind. -/
def Table.Values {κ α : Type} (P : α → Prop) (t : Table κ α) : Prop := ∀ entry ∈ t.entries, P entry.2

namespace Table

variable {κ α : Type} {Q : α → Prop} {t : Table κ α}

@[simp] theorem values_empty : (∅ : Table κ α).Values Q := nofun

variable [DecidableEq κ]

theorem Values.insert (h : t.Values Q) (key : κ) {value : α} (hv : Q value) : (t.insert key value).Values Q := by
  have hput : ∀ entries : List (κ × α), (∀ entry ∈ entries, Q entry.2) → ∀ entry ∈ put key value entries, Q entry.2 := by
    intro entries
    induction entries with
    | nil =>
      intro _
      exact List.forall_mem_singleton.mpr hv
    | cons entry rest ih =>
      intro h
      obtain ⟨he, hrest⟩ := List.forall_mem_cons.mp h
      rw [put]
      split
      · exact List.forall_mem_cons.mpr ⟨hv, hrest⟩
      · exact List.forall_mem_cons.mpr ⟨he, ih hrest⟩
  exact hput t.entries h

theorem Values.get? (h : t.Values Q) {key : κ} {value : α} (hg : t.get? key = some value) : Q value :=
  h (key, value) (mem_of_get? hg)

end Table

/-! ## Labels -/

section Labels

variable {sections : List (Located Section)}

theorem checkLabels_at (hs : ∀ s ∈ sections, s.value.Admits P) (seen : List SectionKind) :
    AllAt P (checkLabels seen sections) := by
  induction sections generalizing seen with
  | nil => exact allAt_nil
  | cons s rest ih =>
    obtain ⟨hadmits, hrest⟩ := List.forall_mem_cons.mp hs
    have hlabel : P s.value.label.span := by
      refine hadmits.idents _ ?_
      cases s.value <;> exact .head _
    unfold checkLabels
    split
    · exact allAt_cons.mpr ⟨Problem.Plain.at_here (by trivial) hlabel, ih hrest _⟩
    · split
      · exact allAt_cons.mpr ⟨Problem.Plain.at_here (by trivial) hlabel, ih hrest _⟩
      · exact ih hrest _

theorem lastNames_at (hs : ∀ s ∈ sections, s.value.Admits P) {kind : SectionKind} :
    ∀ names ∈ lastNames kind sections, P names.span ∧ ∀ i ∈ names.value, P i.span := by
  intro names hn
  obtain ⟨s, hmem, hnames⟩ := List.mem_filterMap.mp (List.mem_of_getLast? hn)
  have hadmits := hs s hmem
  cases hv : s.value with
  | transitions label groups => simp [hv, Section.names?] at hnames
  | list label items =>
    rw [hv] at hadmits
    obtain ⟨-, rfl⟩ : SectionKind.ofListLabel? label.value = some kind ∧ items = names := by
      simpa [hv, Section.names?] using hnames
    exact ⟨hadmits.inner _ (.head _), fun i hi => hadmits.idents i (.tail _ hi)⟩

theorem Section.Admits.groups {s : Section} (h : s.Admits P) {groups : List (Located StateGroup)}
    (hg : s.groups? = some groups) :
    ∀ g ∈ groups, P g.value.state.span ∧ ∀ t ∈ g.value.transitions, P t.span ∧ ∀ i ∈ t.value.idents, P i.span := by
  cases s with
  | list label items => cases hg
  | transitions label groups' =>
    obtain rfl : groups' = groups := Option.some.inj hg
    intro g hg
    have hidents : ∀ i ∈ g.value.idents, P i.span := fun i hi =>
      h.idents i (.tail _ (List.mem_flatMap.mpr ⟨g, hg, hi⟩))
    refine ⟨hidents _ (.head _), ?_⟩
    intro t ht
    refine ⟨h.inner _ (List.mem_flatMap.mpr ⟨g, hg, List.mem_map_of_mem ht⟩), ?_⟩
    intro i hi
    exact hidents i (.tail _ (List.mem_flatMap.mpr ⟨t, ht, hi⟩))

theorem lastGroups_at (hs : ∀ s ∈ sections, s.value.Admits P) :
    ∀ groups ∈ lastGroups sections, ∀ g ∈ groups,
      P g.value.state.span ∧ ∀ t ∈ g.value.transitions, P t.span ∧ ∀ i ∈ t.value.idents, P i.span := by
  intro groups hg
  obtain ⟨s, hmem, hgroups⟩ := List.mem_filterMap.mp (List.mem_of_getLast? hg)
  exact (hs s hmem).groups hgroups

end Labels

/-! ## Declarations -/

section Declarations

variable {κ : Type} [DecidableEq κ] {accept : String → Except Problem κ} {repeated : Problem}

theorem declare_at (ha : RefusesPlainly accept) (hr : repeated.Plain) {t : Table κ Span} (ht : t.Values P)
    {names : List Ident} (hn : ∀ i ∈ names, P i.span) :
    (declare accept repeated t names).value.Values P ∧ AllAt P (declare accept repeated t names).findings := by
  induction names generalizing t with
  | nil => exact ⟨ht, allAt_nil⟩
  | cons name rest ih =>
    obtain ⟨hname, hrest⟩ := List.forall_mem_cons.mp hn
    unfold declare
    split
    · next p hp =>
      obtain ⟨hvalue, hfindings⟩ := ih ht hrest
      exact ⟨hvalue, allAt_cons.mpr ⟨(ha _ _ hp).at_here hname, hfindings⟩⟩
    · next key hk =>
      obtain ⟨hvalue, hfindings⟩ := ih (ht.insert key hname) hrest
      refine ⟨hvalue, ?_⟩
      simp only
      split
      · exact allAt_cons.mpr ⟨hr.at_here hname, hfindings⟩
      · exact hfindings

variable {missing empty : Problem} {names? : Option (Located (List Ident))}

theorem declareSome_at (ha : RefusesPlainly accept) (hr : repeated.Plain) (hm : missing.Plain) (he : empty.Plain)
    (hn : ∀ names ∈ names?, P names.span ∧ ∀ i ∈ names.value, P i.span) :
    AllAt P (declareSome accept repeated missing empty names?).findings := by
  cases names? with
  | none => exact List.forall_mem_singleton.mpr hm.at_nowhere
  | some names =>
    obtain ⟨hplace, hnames⟩ := hn names rfl
    refine allAt_append.mpr ⟨(declare_at ha hr Table.values_empty hnames).2, ?_⟩
    split
    · exact List.forall_mem_singleton.mpr (he.at_here hplace)
    · exact allAt_nil

variable {states : Table State Span} {kind : Halting}

theorem checkStackAlphabet_at (hn : ∀ names ∈ names?, P names.span ∧ ∀ i ∈ names.value, P i.span) :
    AllAt P (checkStackAlphabet names?).findings := by
  cases names? with
  | none => exact allAt_nil
  | some names => exact (declare_at refusesPlainly_symbol (by trivial) Table.values_empty (hn names rfl).2).2

theorem checkInitial_at (hn : ∀ names ∈ names?, P names.span ∧ ∀ i ∈ names.value, P i.span) :
    AllAt P (checkInitial states names?).findings := by
  unfold checkInitial
  split
  · exact List.forall_mem_singleton.mpr (Problem.Plain.at_nowhere (by trivial))
  · next name place =>
    split
    · exact allAt_nil
    · exact List.forall_mem_singleton.mpr (Problem.Plain.at_here (by trivial) ((hn _ rfl).2 name (.head _)))
  · exact List.forall_mem_singleton.mpr (Problem.Plain.at_here (by trivial) (hn _ rfl).1)

theorem checkHalting_at (hm : missing.Plain) (hn : ∀ names ∈ names?, P names.span ∧ ∀ i ∈ names.value, P i.span) :
    (checkHalting kind missing states names?).value.Values P ∧
      AllAt P (checkHalting kind missing states names?).findings := by
  cases names? with
  | none => exact ⟨Table.values_empty, List.forall_mem_singleton.mpr hm.at_nowhere⟩
  | some names =>
    exact declare_at (refusesPlainly_halting kind states) (by trivial) Table.values_empty (hn names rfl).2

theorem checkOverlap_at {final rejecting : Table State Span} (hr : rejecting.Values P) :
    AllAt P (checkOverlap final rejecting) := by
  intro f hf
  obtain ⟨entry, he, rfl⟩ := List.mem_map.mp hf
  exact Problem.Plain.at_here (by trivial) (hr entry (List.mem_filter.mp he).1)

end Declarations

/-! ## Transitions -/

section Transitions

variable {d : Declared}

theorem fault?_eq_some {α : Type} {part : Except Finding α} {f : Finding} : fault? part = some f ↔ part = .error f := by
  cases part <;> simp [fault?]

/-- The faults of a transition are errors at its names. -/
theorem errorAt_of_resolve {state : State} {t : TransitionLine} {faults : List Finding}
    (h : resolve d state t = .error faults) : ∀ f ∈ faults, f.ErrorAt fun s => ∃ i ∈ t.idents, s = i.span := by
  unfold resolve at h
  simp only at h
  split at h
  · cases h
  · cases h
    simp only [List.forall_mem_append, Option.mem_toList, fault?_eq_some]
    refine ⟨⟨⟨?_, ?_⟩, ?_⟩, ?_⟩
    · intro f hf
      exact (errorAt_of_letter hf).imp fun s hs => ⟨t.letter, .head _, hs⟩
    · intro f hf
      exact (errorAt_of_stackSymbol hf).imp fun s hs => ⟨t.top, .tail _ (.head _), hs⟩
    · intro f hf
      exact (errorAt_of_state hf).imp fun s hs => ⟨t.next, .tail _ (.tail _ (.head _)), hs⟩
    · intro f hf
      obtain ⟨part, hp, hf⟩ := List.mem_filterMap.mp hf
      refine (errorAt_of_replacement (fault?_eq_some.mp hf ▸ hp)).imp ?_
      intro s hs
      obtain ⟨i, hi, rfl⟩ := hs
      exact ⟨i, .tail _ (.tail _ (.tail _ hi)), rfl⟩

theorem resolve_at {state : State} {t : TransitionLine} {faults : List Finding} (ht : ∀ i ∈ t.idents, P i.span)
    (h : resolve d state t = .error faults) : AllAt P faults := by
  intro f hf
  refine (errorAt_of_resolve h f hf).at_place.imp ?_
  intro s hs
  obtain ⟨i, hi, rfl⟩ := hs
  exact ht i hi

variable {moves : Table Situation (Located Move)}

theorem checkTransitions_at (d : Declared) (state : State) (hm : moves.Values fun move => P move.span)
    {lines : List (Located TransitionLine)} (hl : ∀ t ∈ lines, P t.span ∧ ∀ i ∈ t.value.idents, P i.span) :
    ((checkTransitions d state moves lines).value.Values fun move => P move.span) ∧
      AllAt P (checkTransitions d state moves lines).findings := by
  induction lines generalizing moves with
  | nil => exact ⟨hm, allAt_nil⟩
  | cons line rest ih =>
    obtain ⟨⟨hline, hidents⟩, hrest⟩ := List.forall_mem_cons.mp hl
    unfold checkTransitions
    split
    · next faults hr =>
      obtain ⟨hvalue, hfindings⟩ := ih hm hrest
      exact ⟨hvalue, allAt_append.mpr ⟨resolve_at hidents hr, hfindings⟩⟩
    · next situation move hr =>
      split
      · next previous hp =>
        obtain ⟨hvalue, hfindings⟩ := ih hm hrest
        exact ⟨hvalue, allAt_cons.mpr ⟨at_transitionRepeated hline (hm.get? hp), hfindings⟩⟩
      · exact ih (hm.insert situation hline) hrest

/-- The transitions under a state that is not declared have no part in what is found. -/
theorem checkGroups_at (hm : moves.Values fun move => P move.span) {groups : List (Located StateGroup)}
    (hg : ∀ g ∈ groups, P g.value.state.span ∧ ∀ q, d.state g.value.state = .ok q →
      ∀ t ∈ g.value.transitions, P t.span ∧ ∀ i ∈ t.value.idents, P i.span) :
    AllAt P (checkGroups d moves groups).findings := by
  induction groups generalizing moves with
  | nil => exact allAt_nil
  | cons group rest ih =>
    obtain ⟨⟨hstate, hlines⟩, hrest⟩ := List.forall_mem_cons.mp hg
    unfold checkGroups
    split
    · next f hf =>
      exact allAt_cons.mpr ⟨(errorAt_of_state hf).at_place.imp fun s hs => hs ▸ hstate, ih hm hrest⟩
    · next state hs =>
      obtain ⟨hvalue, hfindings⟩ := checkTransitions_at d state hm (hlines state hs)
      exact allAt_append.mpr ⟨hfindings, ih hvalue hrest⟩

theorem checkMoves_at {groups? : Option (List (Located StateGroup))}
    (hg : ∀ groups ∈ groups?, ∀ g ∈ groups,
      P g.value.state.span ∧ ∀ t ∈ g.value.transitions, P t.span ∧ ∀ i ∈ t.value.idents, P i.span) :
    AllAt P (checkMoves d groups?).findings := by
  cases groups? with
  | none => exact List.forall_mem_singleton.mpr (Problem.Plain.at_nowhere (by trivial))
  | some groups => exact checkGroups_at Table.values_empty fun g hmem => (hg groups rfl g hmem).imp_right fun ht _ _ => ht

end Transitions

/-! ## All sections -/

/-- The check finds nothing at a place that is not one of the sections. -/
theorem checkSections_at {sections : List (Located Section)} (hs : ∀ s ∈ sections, s.value.Admits P) :
    AllAt P (checkSections sections).findings := by
  have hrejecting := fun states => @checkHalting_at _ .rejectingMissing _ states .rejecting (by trivial)
    (@lastNames_at _ _ hs .rejectingStates)
  simp only [checkSections, allAt_append]
  refine ⟨⟨⟨⟨⟨⟨⟨⟨?_, ?_⟩, ?_⟩, ?_⟩, ?_⟩, ?_⟩, ?_⟩, ?_⟩, ?_⟩
  · exact checkLabels_at hs []
  · exact declareSome_at refusesPlainly_state (by trivial) (by trivial) (by trivial) (lastNames_at hs)
  · exact declareSome_at refusesPlainly_letter (by trivial) (by trivial) (by trivial) (lastNames_at hs)
  · exact checkStackAlphabet_at (lastNames_at hs)
  · exact checkInitial_at (lastNames_at hs)
  · exact (checkHalting_at (by trivial) (lastNames_at hs)).2
  · exact (hrejecting _).2
  · exact checkOverlap_at (hrejecting _).1
  · exact checkMoves_at (lastGroups_at hs)

end Pushdown
