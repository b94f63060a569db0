/-
  Pushdown.Proofs.Automaton.Kept — what the check leaves out, it reports.

  The check goes on after a problem, and what is at fault is left out of the tables it
  builds. `checkSections_keeps`: whatever else is wrong with some sections, each name of a
  list is in the table of its kind, and each transition is in the table of moves with its
  own place, unless there is an error about it: at one of its names or at the state over
  it, at its list, or at the label of a section that is not known or takes its place.
-/

import Pushdown.Proofs.Automaton.Check
import Pushdown.Proofs.Automaton.Place

namespace Pushdown

/-- There is an error at a place of some kind. -/
def HasErrorAt (P : Span → Prop) (findings : List Finding) : Prop :=
  ∃ f ∈ findings, f.isError = true ∧ ∃ s ∈ f.place, P s

section HasErrorAt

variable {P Q : Span → Prop} {f : Finding} {findings findings' : List Finding}

theorem HasErrorAt.mono (h : HasErrorAt P findings) (hs : findings ⊆ findings') (hpq : ∀ s, P s → Q s) :
    HasErrorAt Q findings' := by
  obtain ⟨f, hf, he, s, hplace, hp⟩ := h
  exact ⟨f, hs hf, he, s, hplace, hpq s hp⟩

theorem HasErrorAt.imp (h : HasErrorAt P findings) (hpq : ∀ s, P s → Q s) : HasErrorAt Q findings :=
  h.mono (List.Subset.refl _) hpq

theorem HasErrorAt.cons (f : Finding) (h : HasErrorAt P findings) : HasErrorAt P (f :: findings) :=
  h.mono (List.subset_cons_self ..) fun _ hp => hp

theorem HasErrorAt.left (h : HasErrorAt P findings) : HasErrorAt P (findings ++ findings') :=
  h.mono (List.subset_append_left ..) fun _ hp => hp

theorem HasErrorAt.right (h : HasErrorAt P findings') : HasErrorAt P (findings ++ findings') :=
  h.mono (List.subset_append_right ..) fun _ hp => hp

theorem Finding.ErrorAt.hasErrorAt (h : f.ErrorAt P) (hf : f ∈ findings) : HasErrorAt P findings := by
  have he := h.isError
  obtain ⟨p, place, rfl, -, -, hp⟩ := h
  exact ⟨_, hf, he, place, rfl, hp⟩

end HasErrorAt

/-! ## What is kept -/

/-- The names of a kind that the check has kept. -/
def namesKept (sections : List (Located Section)) : SectionKind → List String
  | .states => (declaredIn sections).states.keys.map State.name
  | .alphabet => (declaredIn sections).alphabet.keys.map Letter.text
  | .stackAlphabet => ((declaredIn sections).stackAlphabet.map fun t => t.keys.map Symbol.name).getD []
  | .initialState =>
    (checkInitial (declaredIn sections).states (lastNames .initialState sections)).value.toList.map State.name
  | .finalStates =>
    (checkHalting .final .finalMissing (declaredIn sections).states (lastNames .finalStates sections)).value.keys.map
      State.name
  | .rejectingStates =>
    (checkHalting .rejecting .rejectingMissing (declaredIn sections).states
      (lastNames .rejectingStates sections)).value.keys.map State.name
  | .transitionFunction => []

/-- The moves that the check has kept, with the places of their transitions. -/
def movesKept (sections : List (Located Section)) : Table Situation (Located Move) :=
  (checkMoves (declaredIn sections) (lastGroups sections)).value

/-- The labels that push a section aside: its own, when it is not known, and those of later
    sections of its kind. -/
def Displaces (s : Located Section) (after : List (Located Section)) (place : Span) : Prop :=
  s.value.kind? = none ∧ place = s.value.label.span ∨
    ∃ t ∈ after, t.value.kind? = s.value.kind? ∧ place = t.value.label.span

/-- Nothing in sections is left out without an error about it. -/
structure Keeps (sections : List (Located Section)) (findings : List Finding) : Prop where
  names : ∀ before s after, sections = before ++ s :: after → ∀ label items, s.value = .list label items →
    ∀ name ∈ items.value, (∃ kind, s.value.kind? = some kind ∧ name.value ∈ namesKept sections kind) ∨
      HasErrorAt (fun place => place = name.span ∨ place = items.span ∨ Displaces s after place) findings
  transitions : ∀ before s after, sections = before ++ s :: after → ∀ label groups, s.value = .transitions label groups →
    ∀ g ∈ groups, ∀ t ∈ g.value.transitions,
      (∃ entry, (Rule.ofTransition g.value.state.value t.value).meaning? = some entry ∧
        (movesKept sections).get? entry.1 = some ⟨entry.2, t.span⟩) ∨
      HasErrorAt (fun place => (∃ i ∈ t.value.idents, place = i.span) ∨ place = t.span ∨
        place = g.value.state.span ∨ Displaces s after place) findings

/-! ## Labels -/

section Labels

variable {before after : List (Located Section)} {s t : Located Section} {kind : SectionKind}

/-- What the check finds past some sections, with their kinds seen, it finds. -/
theorem exists_seen (before after : List (Located Section)) (seen : List SectionKind) :
    ∃ seen', (∀ kind, (∃ s ∈ before, s.value.kind? = some kind) → kind ∈ seen') ∧ seen ⊆ seen' ∧
      checkLabels seen' after ⊆ checkLabels seen (before ++ after) := by
  induction before generalizing seen with
  | nil => exact ⟨seen, by simp, List.Subset.refl _, List.Subset.refl _⟩
  | cons s rest ih =>
    rw [List.cons_append, checkLabels]
    simp only [List.mem_cons, exists_eq_or_imp]
    cases hs : s.value.kind? with
    | none =>
      obtain ⟨seen', hkinds, hseen, hfound⟩ := ih seen
      refine ⟨seen', ?_, hseen, List.subset_cons_of_subset _ hfound⟩
      intro kind h
      exact hkinds kind (h.resolve_left (by simp))
    | some other =>
      by_cases hother : other ∈ seen
      · obtain ⟨seen', hkinds, hseen, hfound⟩ := ih seen
        simp only [if_pos hother]
        refine ⟨seen', ?_, hseen, List.subset_cons_of_subset _ hfound⟩
        intro kind h
        rcases h with h | h
        · cases h
          exact hseen hother
        · exact hkinds kind h
      · obtain ⟨seen', hkinds, hseen, hfound⟩ := ih (other :: seen)
        obtain ⟨hother', hseen⟩ := List.cons_subset.mp hseen
        simp only [if_neg hother]
        refine ⟨seen', ?_, hseen, hfound⟩
        intro kind h
        rcases h with h | h
        · cases h
          exact hother'
        · exact hkinds kind h

/-- A section of no kind that is known is an error. -/
theorem hasErrorAt_of_unknown (hk : s.value.kind? = none) :
    HasErrorAt (· = s.value.label.span) (checkLabels [] (before ++ s :: after)) := by
  obtain ⟨seen, -, -, hfound⟩ := exists_seen before (s :: after) []
  rw [checkLabels, hk] at hfound
  exact ⟨_, hfound List.mem_cons_self, rfl, _, rfl, rfl⟩

/-- So is a section of a kind that stands before already. -/
theorem hasErrorAt_of_repeated (hs : s ∈ before) (ht : t.value.kind? = s.value.kind?) (hk : s.value.kind? = some kind) :
    HasErrorAt (· = t.value.label.span) (checkLabels [] (before ++ t :: after)) := by
  obtain ⟨seen, hkinds, -, hfound⟩ := exists_seen before (t :: after) []
  rw [checkLabels, ht, hk] at hfound
  simp only [if_pos (hkinds kind ⟨s, hs, hk⟩)] at hfound
  exact ⟨_, hfound List.mem_cons_self, rfl, _, rfl, rfl⟩

/-- What the last section of a kind says counts; one before it is pushed aside, which is an
    error. -/
theorem last_or_displaced {α : Type} {part : Section → Option α} {a : α} (before after : List (Located Section))
    (hpart : ∀ t b, part t = some b → t.kind? = some kind) (ha : part s.value = some a) :
    ((before ++ s :: after).filterMap fun s => part s.value).getLast? = some a ∨
      HasErrorAt (Displaces s after) (checkLabels [] (before ++ s :: after)) := by
  have hs : s.value.kind? = some kind := hpart _ _ ha
  by_cases h : ∃ t ∈ after, ∃ b, part t.value = some b
  · obtain ⟨t, ht, b, hb⟩ := h
    obtain ⟨between, later, rfl⟩ := List.append_of_mem ht
    have htk := hpart _ _ hb
    have hsplit : before ++ s :: (between ++ t :: later) = (before ++ s :: between) ++ t :: later := by simp
    have herror : HasErrorAt (· = t.value.label.span) (checkLabels [] ((before ++ s :: between) ++ t :: later)) :=
      hasErrorAt_of_repeated (by simp) (htk.trans hs.symm) hs
    rw [hsplit]
    refine .inr (herror.imp ?_)
    intro place hplace
    exact .inr ⟨t, ht, htk.trans hs.symm, hplace⟩
  · have hnone : after.filterMap (fun s => part s.value) = [] := by
      rw [List.filterMap_eq_nil_iff]
      intro t ht
      cases hb : part t.value with
      | none => rfl
      | some b => exact absurd ⟨t, ht, b, hb⟩ h
    have hlast : (s :: after).filterMap (fun s => part s.value) = [a] := by
      rw [List.filterMap_cons, ha, hnone]
    rw [List.filterMap_append, hlast, List.getLast?_concat]
    exact .inl rfl

theorem names?_kind {s : Section} {items : Located (List Ident)} (h : s.names? kind = some items) :
    s.kind? = some kind := by
  cases s with
  | transitions _ _ => cases h
  | list label items' =>
    by_cases hk : SectionKind.ofListLabel? label.value = some kind
    · exact hk
    · simp [Section.names?, hk] at h

theorem groups?_kind {s : Section} {groups : List (Located StateGroup)} (h : s.groups? = some groups) :
    s.kind? = some .transitionFunction := by
  cases s with
  | list _ _ => cases h
  | transitions _ _ => rfl

end Labels

/-! ## Declarations -/

section Declarations

variable {κ : Type} [DecidableEq κ] {accept : String → Except Problem κ} {text : κ → String} {repeated : Problem}

theorem keys_subset_declare (t : Table κ Span) (names : List Ident) :
    t.keys ⊆ (declare accept repeated t names).value.keys := by
  intro key hk
  exact mem_keys_declare.mpr (.inl hk)

/-- A name gets its key, or an error. -/
theorem declare_keeps (ha : Accepts accept text) (t : Table κ Span) (names : List Ident) :
    ∀ name ∈ names, name.value ∈ (declare accept repeated t names).value.keys.map text ∨
      HasErrorAt (· = name.span) (declare accept repeated t names).findings := by
  induction names generalizing t with
  | nil => simp
  | cons first rest ih =>
    intro name hname
    unfold declare
    split
    · next p hp =>
      rcases List.mem_cons.mp hname with rfl | hname
      · exact .inr ⟨_, List.mem_cons_self, beq_iff_eq.mpr (ha.severity_eq hp), _, rfl, rfl⟩
      · exact (ih t name hname).imp_right fun h => h.cons _
    · next key hk =>
      rcases List.mem_cons.mp hname with rfl | hname
      · left
        rw [← ha.text_eq hk]
        exact List.mem_map_of_mem (keys_subset_declare _ rest (Table.mem_keys_insert.mpr (.inl rfl)))
      · refine (ih _ name hname).imp_right ?_
        intro h
        simp only
        split
        · exact h.cons _
        · exact h

theorem declareSome_keeps (ha : Accepts accept text) {missing empty : Problem} (names : Located (List Ident)) :
    ∀ name ∈ names.value,
      name.value ∈ (declareSome accept repeated missing empty (some names)).value.keys.map text ∨
        HasErrorAt (· = name.span) (declareSome accept repeated missing empty (some names)).findings := by
  intro name hname
  exact (declare_keeps ha ∅ names.value name hname).imp_right HasErrorAt.left

/-- A name of the initial state is the initial state, or there is an error at it or at the
    list. -/
theorem checkInitial_keeps (states : Table State Span) (names : Located (List Ident)) :
    ∀ name ∈ names.value, name.value ∈ (checkInitial states (some names)).value.toList.map State.name ∨
      HasErrorAt (fun place => place = name.span ∨ place = names.span) (checkInitial states (some names)).findings := by
  intro name hname
  unfold checkInitial
  split
  · next h => cases h
  · next only place h =>
    cases h
    obtain rfl := List.mem_singleton.mp hname
    split
    · exact .inl List.mem_cons_self
    · exact .inr ⟨_, List.mem_cons_self, rfl, _, rfl, .inl rfl⟩
  · next items place _ h =>
    cases h
    exact .inr ⟨_, List.mem_cons_self, rfl, _, rfl, .inr rfl⟩

theorem checkHalting_keeps (kind : Halting) (missing : Problem) (states : Table State Span)
    (names : Located (List Ident)) :
    ∀ name ∈ names.value, name.value ∈ (checkHalting kind missing states (some names)).value.keys.map State.name ∨
      HasErrorAt (· = name.span) (checkHalting kind missing states (some names)).findings :=
  declare_keeps (accepts_halting kind states) ∅ names.value

/-- What is so of every key that is accepted is so of the table. -/
theorem keys_declare {Q : κ → Prop} (hQ : ∀ name key, accept name = .ok key → Q key) {t : Table κ Span}
    (ht : ∀ key ∈ t.keys, Q key) (names : List Ident) : ∀ key ∈ (declare accept repeated t names).value.keys, Q key := by
  intro key hk
  rcases mem_keys_declare.mp hk with hk | ⟨name, -, hname⟩
  · exact ht key hk
  · exact hQ _ _ hname

end Declarations

/-! ## Transitions -/

section Transitions

variable {sections : List (Located Section)}

/-- What the declared names say, whatever was wrong with them. -/
def Declared.outline (d : Declared) : Outline where
  states := namesIn (d.states.idents State.name)
  alphabet := namesIn (d.alphabet.idents Letter.text)
  stackAlphabet := d.stackAlphabet.map fun t => namesIn (t.idents Symbol.name)
  initial := []
  final := []
  rejecting := []
  headers := []
  rules := []

theorem declaredIn_matches_outline (sections : List (Located Section)) :
    (declaredIn sections).Matches (declaredIn sections).outline := by
  refine ⟨rfl, rfl, rfl, ?_⟩
  have hfree : ∀ name key, acceptSymbol name = .ok key → key.name ≠ "STACK_END" ∧ key.name ≠ "INPUT_END" := by
    intro name key h
    rw [accepts_symbol.text_eq h]
    exact acceptSymbol_ok.mp ⟨key, h⟩
  intro symbols hsymbols
  obtain ⟨t, ht, rfl⟩ := Option.map_eq_some_iff.mp hsymbols
  rw [namesIn_idents, List.forall_mem_map]
  cases hn : lastNames .stackAlphabet sections with
  | none => simp [declaredIn, hn, checkStackAlphabet] at ht
  | some names =>
    obtain rfl : (declare acceptSymbol .symbolRepeated ∅ names.value).value = t := by
      simpa [declaredIn, hn, checkStackAlphabet] using ht
    exact keys_declare hfree (by simp) names.value

theorem eq_of_state {d : Declared} {name : Ident} {state : State} (h : d.state name = .ok state) :
    state = ⟨name.value⟩ := by
  unfold Declared.state at h
  split at h
  · exact (Except.ok.inj h).symm
  · cases h

theorem ne_nil_of_resolve {d : Declared} {state : State} {t : TransitionLine} {faults : List Finding}
    (h : resolve d state t = .error faults) : faults ≠ [] := by
  intro hnil
  subst hnil
  exact resolve_error h clean_nil

/-- What is in the table stays there. -/
theorem entries_subset_checkTransitions (d : Declared) (state : State) (moves : Table Situation (Located Move))
    (lines : List (Located TransitionLine)) : moves.entries ⊆ (checkTransitions d state moves lines).value.entries := by
  induction lines generalizing moves with
  | nil => exact List.Subset.refl _
  | cons line rest ih =>
    unfold checkTransitions
    split
    · exact ih moves
    · next situation move _ =>
      split
      · exact ih moves
      · next hnew =>
        refine List.Subset.trans ?_ (ih _)
        rw [Table.entries_insert (Table.get?_eq_none.mp hnew)]
        exact List.subset_append_left ..

/-- A transition gives its move, or an error at one of its names or at itself. -/
theorem checkTransitions_keeps (d : Declared) (state : State) (moves : Table Situation (Located Move))
    (lines : List (Located TransitionLine)) :
    ∀ t ∈ lines,
      (∃ entry, resolve d state t.value = .ok entry ∧
        (entry.1, ⟨entry.2, t.span⟩) ∈ (checkTransitions d state moves lines).value.entries) ∨
      HasErrorAt (fun place => (∃ i ∈ t.value.idents, place = i.span) ∨ place = t.span)
        (checkTransitions d state moves lines).findings := by
  induction lines generalizing moves with
  | nil => simp
  | cons line rest ih =>
    intro t ht
    unfold checkTransitions
    split
    · next faults hr =>
      rcases List.mem_cons.mp ht with rfl | ht
      · obtain ⟨f, hf⟩ := List.exists_mem_of_ne_nil faults (ne_nil_of_resolve hr)
        exact .inr (((errorAt_of_resolve hr f hf).hasErrorAt hf).left.imp fun _ => .inl)
      · exact (ih moves t ht).imp_right HasErrorAt.right
    · next situation move hr =>
      split
      · next previous _ =>
        rcases List.mem_cons.mp ht with rfl | ht
        · exact .inr ⟨_, List.mem_cons_self, rfl, _, rfl, .inr rfl⟩
        · exact (ih moves t ht).imp_right fun h => h.cons _
      · next hnew =>
        rcases List.mem_cons.mp ht with rfl | ht
        · refine .inl ⟨(situation, move), hr, entries_subset_checkTransitions d state _ rest ?_⟩
          rw [Table.entries_insert (Table.get?_eq_none.mp hnew)]
          exact List.mem_append_right _ List.mem_cons_self
        · exact ih _ t ht

theorem entries_subset_checkGroups (d : Declared) (moves : Table Situation (Located Move))
    (groups : List (Located StateGroup)) : moves.entries ⊆ (checkGroups d moves groups).value.entries := by
  induction groups generalizing moves with
  | nil => exact List.Subset.refl _
  | cons group rest ih =>
    unfold checkGroups
    split
    · exact ih moves
    · next state _ => exact List.Subset.trans (entries_subset_checkTransitions d state moves _) (ih _)

/-- So does a transition of a group, or there is an error at the state over it. -/
theorem checkGroups_keeps (d : Declared) (moves : Table Situation (Located Move)) (groups : List (Located StateGroup)) :
    ∀ g ∈ groups, ∀ t ∈ g.value.transitions,
      (∃ entry, resolve d ⟨g.value.state.value⟩ t.value = .ok entry ∧
        (entry.1, ⟨entry.2, t.span⟩) ∈ (checkGroups d moves groups).value.entries) ∨
      HasErrorAt (fun place => (∃ i ∈ t.value.idents, place = i.span) ∨ place = t.span ∨ place = g.value.state.span)
        (checkGroups d moves groups).findings := by
  induction groups generalizing moves with
  | nil => simp
  | cons group rest ih =>
    intro g hg t ht
    unfold checkGroups
    split
    · next f hf =>
      rcases List.mem_cons.mp hg with rfl | hg
      · exact .inr (((errorAt_of_state hf).hasErrorAt List.mem_cons_self).imp fun _ h => .inr (.inr h))
      · exact (ih moves g hg t ht).imp_right fun h => h.cons _
    · next state hs =>
      rcases List.mem_cons.mp hg with rfl | hg
      · obtain rfl := eq_of_state hs
        rcases checkTransitions_keeps d _ moves _ t ht with ⟨entry, hr, hmem⟩ | h
        · exact .inl ⟨entry, hr, entries_subset_checkGroups d _ rest hmem⟩
        · exact .inr (h.left.imp fun _ hp => hp.imp_right .inl)
      · exact (ih _ g hg t ht).imp_right HasErrorAt.right

end Transitions

/-! ## All sections -/

section Sections

variable {sections : List (Located Section)}

/-- What the check of one kind of section finds. -/
def findingsOf (sections : List (Located Section)) : SectionKind → List Finding
  | .states => (checkStates (lastNames .states sections)).findings
  | .alphabet => (checkAlphabet (lastNames .alphabet sections)).findings
  | .stackAlphabet => (checkStackAlphabet (lastNames .stackAlphabet sections)).findings
  | .initialState => (checkInitial (declaredIn sections).states (lastNames .initialState sections)).findings
  | .finalStates =>
    (checkHalting .final .finalMissing (declaredIn sections).states (lastNames .finalStates sections)).findings
  | .rejectingStates =>
    (checkHalting .rejecting .rejectingMissing (declaredIn sections).states
      (lastNames .rejectingStates sections)).findings
  | .transitionFunction => (checkMoves (declaredIn sections) (lastGroups sections)).findings

theorem checkLabels_subset : checkLabels [] sections ⊆ (checkSections sections).findings := by
  intro f hf
  simp [checkSections, hf]

theorem findingsOf_subset (kind : SectionKind) : findingsOf sections kind ⊆ (checkSections sections).findings := by
  intro f hf
  simp only [checkSections, List.mem_append]
  cases kind <;> simp only [findingsOf, declaredIn] at hf <;> simp [hf]

/-- The names of the list that counts of its kind. -/
theorem names_of_last {kind : SectionKind} {items : Located (List Ident)} (hk : kind ≠ .transitionFunction)
    (h : lastNames kind sections = some items) :
    ∀ name ∈ items.value, name.value ∈ namesKept sections kind ∨
      HasErrorAt (fun place => place = name.span ∨ place = items.span) (findingsOf sections kind) := by
  intro name hname
  cases kind with
  | states =>
    have hkeeps : name.value ∈ (checkStates (some items)).value.keys.map State.name ∨
        HasErrorAt (· = name.span) (checkStates (some items)).findings := declareSome_keeps accepts_state items name hname
    rw [← h] at hkeeps
    exact hkeeps.imp_right fun he => he.imp fun _ => .inl
  | alphabet =>
    have hkeeps : name.value ∈ (checkAlphabet (some items)).value.keys.map Letter.text ∨
        HasErrorAt (· = name.span) (checkAlphabet (some items)).findings := declareSome_keeps accepts_letter items name hname
    rw [← h] at hkeeps
    exact hkeeps.imp_right fun he => he.imp fun _ => .inl
  | stackAlphabet =>
    have hkeeps : name.value ∈ ((checkStackAlphabet (some items)).value.map fun t => t.keys.map Symbol.name).getD [] ∨
        HasErrorAt (· = name.span) (checkStackAlphabet (some items)).findings :=
      declare_keeps accepts_symbol ∅ items.value name hname
    rw [← h] at hkeeps
    exact hkeeps.imp_right fun he => he.imp fun _ => .inl
  | initialState =>
    have hkeeps := checkInitial_keeps (declaredIn sections).states items name hname
    rw [← h] at hkeeps
    exact hkeeps
  | finalStates =>
    have hkeeps := checkHalting_keeps .final .finalMissing (declaredIn sections).states items name hname
    rw [← h] at hkeeps
    exact hkeeps.imp_right fun he => he.imp fun _ => .inl
  | rejectingStates =>
    have hkeeps := checkHalting_keeps .rejecting .rejectingMissing (declaredIn sections).states items name hname
    rw [← h] at hkeeps
    exact hkeeps.imp_right fun he => he.imp fun _ => .inl
  | transitionFunction => exact absurd rfl hk

/-- The transitions of the block that counts. -/
theorem transitions_of_last {groups : List (Located StateGroup)} (h : lastGroups sections = some groups) :
    ∀ g ∈ groups, ∀ t ∈ g.value.transitions,
      (∃ entry, (Rule.ofTransition g.value.state.value t.value).meaning? = some entry ∧
        (movesKept sections).get? entry.1 = some ⟨entry.2, t.span⟩) ∨
      HasErrorAt (fun place => (∃ i ∈ t.value.idents, place = i.span) ∨ place = t.span ∨ place = g.value.state.span)
        (findingsOf sections .transitionFunction) := by
  intro g hg t ht
  rcases checkGroups_keeps (declaredIn sections) ∅ groups g hg t ht with ⟨entry, hr, hmem⟩ | he
  · refine .inl ⟨entry, ((resolve_ok (declaredIn_matches_outline sections)).mp hr).2, Table.get?_eq_some.mpr ?_⟩
    rw [movesKept, h]
    exact hmem
  · right
    rw [findingsOf, h]
    exact he

end Sections

/-- Whatever the check leaves out of the sections, there is an error about it. -/
theorem checkSections_keeps (sections : List (Located Section)) : Keeps sections (checkSections sections).findings := by
  refine ⟨?_, ?_⟩
  · rintro before s after rfl label items hs name hname
    cases hk : s.value.kind? with
    | none =>
      exact .inr ((hasErrorAt_of_unknown hk).mono checkLabels_subset fun place hp => .inr (.inr (.inl ⟨hk, hp⟩)))
    | some kind =>
      have hlabel : SectionKind.ofListLabel? label.value = some kind := by
        rw [hs] at hk
        exact hk
      have hitems : s.value.names? kind = some items := by
        rw [hs, Section.names?, if_pos hlabel]
      rcases last_or_displaced before after (fun _ _ => names?_kind) hitems with hlast | herror
      · have hne : kind ≠ .transitionFunction := (ofListLabel?_eq_some.mp hlabel).1
        refine (names_of_last hne hlast name hname).imp ?_ ?_
        · intro h
          exact ⟨kind, rfl, h⟩
        · intro h
          exact h.mono (findingsOf_subset kind) fun _ hp => hp.imp_right .inl
      · exact .inr (herror.mono checkLabels_subset fun _ hp => .inr (.inr hp))
  · rintro before s after rfl label groups hs g hg t ht
    have hgroups : s.value.groups? = some groups := by
      rw [hs]
      rfl
    rcases last_or_displaced before after (fun _ _ => groups?_kind) hgroups with hlast | herror
    · refine (transitions_of_last hlast g hg t ht).imp_right ?_
      intro h
      exact h.mono (findingsOf_subset .transitionFunction) fun _ hp => hp.imp_right fun hp => hp.imp_right .inl
    · exact .inr (herror.mono checkLabels_subset fun _ hp => .inr (.inr (.inr hp)))

end Pushdown
