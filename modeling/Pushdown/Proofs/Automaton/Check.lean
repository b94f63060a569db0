/-
  Pushdown.Proofs.Automaton.Check — sections have an automaton exactly when they make
  sense, and it is what they say (`ofSections_automaton_iff`).

  The transitions are checked one after the other against a table that grows over the
  groups; what is left to check is that all rules are allowed and that the situations in
  the table and those still to come are all different.
-/

import Pushdown.Proofs.Automaton.Resolution
import Pushdown.Proofs.Definition

namespace Pushdown

/-! ## Transitions -/

namespace Rule

def situation? (r : Rule) : Option Situation := r.meaning?.map Prod.fst

/-- The names that decide when a rule applies. -/
def origin (r : Rule) : String × String × String := (r.state, r.letter, r.top)

/-- Rules with a meaning are for one situation when the same names decide on them. -/
theorem situation_eq_iff {r r' : Rule} {entry entry' : Situation × Move} (h : r.meaning? = some entry)
    (h' : r'.meaning? = some entry') : entry.1 = entry'.1 ↔ r.origin = r'.origin := by
  obtain ⟨l, hl, rfl⟩ := Option.map_eq_some_iff.mp h
  obtain ⟨l', hl', rfl⟩ := Option.map_eq_some_iff.mp h'
  simp only [Situation.mk.injEq, State.mk.injEq, origin, Prod.mk.injEq]
  refine ⟨?_, ?_⟩
  · intro h
    obtain ⟨hs, rfl, ht⟩ := h
    exact ⟨hs, Letter.ofText?_inj hl hl', StackSymbol.ofText_inj ht⟩
  · intro h
    obtain ⟨hs, hletter, ht⟩ := h
    rw [hletter] at hl
    exact ⟨hs, Option.some.inj (hl.symm.trans hl'), congrArg _ ht⟩

end Rule

section Transitions

variable {d : Declared} {o : Outline}

theorem ofText?_of_mem (hm : d.Matches o) {name : String} (h : name ∈ o.alphabet) :
    ∃ l, Letter.ofText? name = some l := by
  rw [← hm.alphabet, namesIn_idents] at h
  obtain ⟨l, -, rfl⟩ := List.mem_map.mp h
  exact ⟨l, Letter.ofText?_text l⟩

theorem meaning_of_allows (hm : d.Matches o) {r : Rule} (h : o.Allows r) :
    ∃ entry, r.meaning? = some entry := by
  obtain ⟨l, hl⟩ := ofText?_of_mem hm h.letter
  exact ⟨_, Option.map_eq_some_iff.mpr ⟨l, hl, rfl⟩⟩

/-- The rules of transitions under a state. -/
def rulesUnder (state : State) (lines : List (Located TransitionLine)) : List Rule :=
  lines.map fun line => Rule.ofTransition state.name line.value

variable {state : State}

theorem checkTransitions_clean (hm : d.Matches o) {moves : Table Situation (Located Move)}
    {lines : List (Located TransitionLine)} :
    Clean (checkTransitions d state moves lines).findings ↔
      (∀ r ∈ rulesUnder state lines, o.Allows r) ∧
        (moves.keys.map some ++ (rulesUnder state lines).map Rule.situation?).Nodup := by
  induction lines generalizing moves with
  | nil =>
    have hn : (moves.keys.map some).Nodup := Table.nodup_map_keys (fun _ _ => Option.some.inj) moves
    simpa [checkTransitions, rulesUnder] using hn
  | cons line rest ih =>
    unfold checkTransitions
    cases hr : resolve d state line.value with
    | error faults =>
      refine iff_of_false (fun h => resolve_error hr (clean_append.mp h).1) ?_
      intro h
      obtain ⟨hall, -⟩ := h
      have hallows := hall _ List.mem_cons_self
      obtain ⟨entry, he⟩ := meaning_of_allows hm hallows
      cases hr.symm.trans ((resolve_ok hm).mpr ⟨hallows, he⟩)
    | ok entry =>
      obtain ⟨situation, move⟩ := entry
      obtain ⟨hallows, he⟩ := (resolve_ok hm).mp hr
      have hs : (Rule.ofTransition state.name line.value).situation? = some situation := by
        rw [Rule.situation?, he]
        rfl
      simp only
      cases hg : moves.get? situation with
      | some previous =>
        -- the situation stands in the table already
        refine iff_of_false (by simp [Problem.severity]) ?_
        intro h
        obtain ⟨-, hn⟩ := h
        have hmem : some situation ∈ moves.keys.map some :=
          List.mem_map_of_mem (List.mem_map_of_mem (f := Prod.fst) (Table.mem_of_get? hg))
        exact (List.nodup_append.mp hn).2.2 _ hmem _ (hs ▸ List.mem_cons_self) rfl
      | none =>
        have hnew := Table.get?_eq_none.mp hg
        simp only
        rw [ih, Table.keys_insert, if_neg hnew]
        simp [rulesUnder, hallows, hs]

theorem entries_checkTransitions (hm : d.Matches o) {moves : Table Situation (Located Move)}
    {lines : List (Located TransitionLine)} (h : Clean (checkTransitions d state moves lines).findings) :
    ((checkTransitions d state moves lines).value.mapValues Located.value).entries.map some =
      (moves.mapValues Located.value).entries.map some ++ (rulesUnder state lines).map Rule.meaning? := by
  induction lines generalizing moves with
  | nil => simp [checkTransitions, rulesUnder]
  | cons line rest ih =>
    unfold checkTransitions at h ⊢
    cases hr : resolve d state line.value with
    | error faults =>
      simp only [hr] at h
      exact absurd (clean_append.mp h).1 (resolve_error hr)
    | ok entry =>
      obtain ⟨situation, move⟩ := entry
      obtain ⟨-, he⟩ := (resolve_ok hm).mp hr
      simp only [hr] at h ⊢
      cases hg : moves.get? situation with
      | some previous => simp [hg, Problem.severity] at h
      | none =>
        simp only [hg] at h ⊢
        rw [ih h]
        simp [Table.mapValues, Table.entries_insert (Table.get?_eq_none.mp hg), rulesUnder, he]

theorem keys_checkTransitions (hm : d.Matches o) {moves : Table Situation (Located Move)}
    {lines : List (Located TransitionLine)} (h : Clean (checkTransitions d state moves lines).findings) :
    (checkTransitions d state moves lines).value.keys.map some =
      moves.keys.map some ++ (rulesUnder state lines).map Rule.situation? := by
  have hentries := congrArg (List.map (Option.map Prod.fst)) (entries_checkTransitions hm h)
  rw [show Rule.situation? = fun r => r.meaning?.map Prod.fst from rfl]
  simpa [Table.mapValues, Table.keys, Function.comp_def] using hentries

/-- The rules of a block. -/
def rulesOf (groups : List (Located StateGroup)) : List Rule := groups.flatMap fun g => Rule.ofGroup g.value

theorem rulesOf_cons (group : Located StateGroup) (rest : List (Located StateGroup)) :
    rulesOf (group :: rest) = rulesUnder ⟨group.value.state.value⟩ group.value.transitions ++ rulesOf rest := rfl

theorem checkGroups_clean (hm : d.Matches o) {moves : Table Situation (Located Move)}
    {groups : List (Located StateGroup)} :
    Clean (checkGroups d moves groups).findings ↔
      (∀ g ∈ groups, g.value.state.value ∈ o.states) ∧ (∀ r ∈ rulesOf groups, o.Allows r) ∧
        (moves.keys.map some ++ (rulesOf groups).map Rule.situation?).Nodup := by
  induction groups generalizing moves with
  | nil =>
    have hn : (moves.keys.map some).Nodup := Table.nodup_map_keys (fun _ _ => Option.some.inj) moves
    simpa [checkGroups, rulesOf] using hn
  | cons group rest ih =>
    unfold checkGroups
    cases hs : d.state group.value.state with
    | error f =>
      refine iff_of_false (by simp [(errorAt_of_state hs).isError]) ?_
      intro h
      obtain ⟨hstates, -⟩ := h
      cases hs.symm.trans (hm.state_ok.mpr ⟨hstates _ List.mem_cons_self, rfl⟩)
    | ok state =>
      obtain ⟨hmem, rfl⟩ := hm.state_ok.mp hs
      simp only [clean_append, rulesOf_cons, List.mem_cons, forall_eq_or_imp, List.mem_append, List.map_append]
      refine ⟨?_, ?_⟩
      · intro h
        obtain ⟨hhere, hlater⟩ := h
        obtain ⟨hstates, hallows, hn⟩ := ih.mp hlater
        rw [keys_checkTransitions hm hhere, List.append_assoc] at hn
        have hfirst := ((checkTransitions_clean hm).mp hhere).1
        exact ⟨⟨hmem, hstates⟩, fun r hr => hr.elim (hfirst r) (hallows r), hn⟩
      · intro h
        obtain ⟨⟨-, hstates⟩, hallows, hn⟩ := h
        rw [← List.append_assoc] at hn
        have hhere := (checkTransitions_clean hm).mpr
          ⟨fun r hr => hallows r (Or.inl hr), (List.nodup_append.mp hn).1⟩
        refine ⟨hhere, ih.mpr ⟨hstates, fun r hr => hallows r (Or.inr hr), ?_⟩⟩
        rwa [keys_checkTransitions hm hhere]

theorem entries_checkGroups (hm : d.Matches o) {moves : Table Situation (Located Move)}
    {groups : List (Located StateGroup)} (h : Clean (checkGroups d moves groups).findings) :
    ((checkGroups d moves groups).value.mapValues Located.value).entries.map some =
      (moves.mapValues Located.value).entries.map some ++ (rulesOf groups).map Rule.meaning? := by
  induction groups generalizing moves with
  | nil => simp [checkGroups, rulesOf]
  | cons group rest ih =>
    unfold checkGroups at h ⊢
    cases hs : d.state group.value.state with
    | error f => simp [hs, (errorAt_of_state hs).isError] at h
    | ok state =>
      obtain ⟨-, rfl⟩ := hm.state_ok.mp hs
      simp only [hs, clean_append] at h ⊢
      rw [ih h.2, entries_checkTransitions hm h.1, rulesOf_cons, List.map_append, List.append_assoc]

/-- Among allowed rules those of one situation have the same names. -/
theorem situations_nodup (hm : d.Matches o) {rules : List Rule} (h : ∀ r ∈ rules, o.Allows r) :
    (rules.map Rule.situation?).Nodup ↔ (rules.map Rule.origin).Nodup := by
  have heq : ∀ r ∈ rules, ∀ r' ∈ rules, r.situation? = r'.situation? ↔ r.origin = r'.origin := by
    intro r hr r' hr'
    obtain ⟨entry, he⟩ := meaning_of_allows hm (h r hr)
    obtain ⟨entry', he'⟩ := meaning_of_allows hm (h r' hr')
    rw [Rule.situation?, Rule.situation?, he, he', Option.map_some, Option.map_some, Option.some.injEq]
    exact Rule.situation_eq_iff he he'
  simp only [List.Nodup, List.pairwise_map, ne_eq]
  refine ⟨?_, ?_⟩
  · intro hp
    exact hp.imp_of_mem fun hr hr' hne e => hne ((heq _ hr _ hr').mpr e)
  · intro hp
    exact hp.imp_of_mem fun hr hr' hne e => hne ((heq _ hr _ hr').mp e)

end Transitions

/-! ## The sections of each kind -/

section Kinds

variable {sections : List (Located Section)}

theorem toList_getLast? {α : Type} {l : List α} (h : l.length ≤ 1) : l.getLast?.toList = l := by
  match l, h with
  | [], _ => rfl
  | [a], _ => rfl

/-- When no label stands twice, the names that count are all the names of a kind. -/
theorem listsUnder_eq (h : Clean (checkLabels [] sections)) {kind : SectionKind} (hk : kind ≠ .transitionFunction) :
    listsUnder kind.label sections = (lastNames kind sections).toList := by
  have hc := (checkLabels_clean.mp h).2 kind
  rw [if_neg List.not_mem_nil, ← length_listsUnder hk] at hc
  rw [lastNames, names?_eq_listsUnder hk, toList_getLast? hc]

theorem blocksOf_eq (h : Clean (checkLabels [] sections)) : blocksOf sections = (lastGroups sections).toList := by
  have hc := (checkLabels_clean.mp h).2 .transitionFunction
  rw [if_neg List.not_mem_nil, ← length_blocksOf] at hc
  exact (toList_getLast? hc).symm

theorem Complete.checkLabels (h : Complete sections) : Clean (checkLabels [] sections) := by
  rw [checkLabels_clean]
  refine ⟨fun s hs => kind?_ne_none.mpr (h.labels s hs), fun kind => ?_⟩
  rw [if_neg List.not_mem_nil]
  by_cases hk : kind = .transitionFunction
  · have hone := h.transitions
    rw [length_blocksOf] at hone
    exact hk ▸ Nat.le_of_eq hone
  · rw [← length_listsUnder hk]
    cases kind with
    | states => exact Nat.le_of_eq h.states
    | alphabet => exact Nat.le_of_eq h.alphabet
    | stackAlphabet => exact h.stackAlphabet
    | initialState => exact Nat.le_of_eq h.initial
    | finalStates => exact Nat.le_of_eq h.final
    | rejectingStates => exact h.rejecting
    | transitionFunction => exact absurd rfl hk

theorem namesUnder_eq (h : Clean (checkLabels [] sections)) {kind : SectionKind} (hk : kind ≠ .transitionFunction) :
    namesUnder kind.label sections = ((lastNames kind sections).map Located.value).getD [] := by
  rw [namesUnder, listsUnder_eq h hk]
  cases lastNames kind sections <;> simp

/-- A check that wants a list speaks about the names under a label that stands once. -/
theorem exists_lastNames_iff (h : Clean (checkLabels [] sections)) {kind : SectionKind}
    (hk : kind ≠ .transitionFunction) {P : List String → Prop} :
    (∃ names, lastNames kind sections = some names ∧ P (namesIn names.value)) ↔
      (listsUnder kind.label sections).length = 1 ∧ P (namesIn (namesUnder kind.label sections)) := by
  rw [namesUnder_eq h hk, listsUnder_eq h hk]
  cases lastNames kind sections <;> simp

end Kinds

/-! ## The checks of the lists, by the outline -/

section Outlines

variable {sections : List (Located Section)}

theorem checkStates_outline (h : Clean (checkLabels [] sections)) :
    Clean (checkStates (lastNames .states sections)).findings ↔
      (listsUnder "states" sections).length = 1 ∧ (Outline.ofSections sections).states ≠ [] ∧
        (∀ q ∈ (Outline.ofSections sections).states, q ≠ "STACK_END" ∧ q ≠ "INPUT_END") ∧
        (Outline.ofSections sections).states.Nodup :=
  checkStates_clean.trans <| @exists_lastNames_iff _ h .states (by decide) fun names =>
    names ≠ [] ∧ (∀ q ∈ names, q ≠ "STACK_END" ∧ q ≠ "INPUT_END") ∧ names.Nodup

theorem checkAlphabet_outline (h : Clean (checkLabels [] sections)) :
    Clean (checkAlphabet (lastNames .alphabet sections)).findings ↔
      (listsUnder "alphabet" sections).length = 1 ∧ (Outline.ofSections sections).alphabet ≠ [] ∧
        (∀ l ∈ (Outline.ofSections sections).alphabet, l = "INPUT_END" ∨ l.length = 1) ∧
        (Outline.ofSections sections).alphabet.Nodup :=
  checkAlphabet_clean.trans <| @exists_lastNames_iff _ h .alphabet (by decide) fun names =>
    names ≠ [] ∧ (∀ l ∈ names, l = "INPUT_END" ∨ l.length = 1) ∧ names.Nodup

theorem stackAlphabet_outline (h : Clean (checkLabels [] sections)) :
    (Outline.ofSections sections).stackAlphabet = (lastNames .stackAlphabet sections).map (namesIn ·.value) := by
  have hl : listsUnder "stack_alphabet" sections = _ := @listsUnder_eq _ h .stackAlphabet (by decide)
  simp only [Outline.ofSections]
  rw [hl]
  cases lastNames .stackAlphabet sections <;> rfl

theorem checkStackAlphabet_outline (h : Clean (checkLabels [] sections)) :
    Clean (checkStackAlphabet (lastNames .stackAlphabet sections)).findings ↔
      ∀ symbols ∈ (Outline.ofSections sections).stackAlphabet,
        (∀ s ∈ symbols, s ≠ "STACK_END" ∧ s ≠ "INPUT_END") ∧ symbols.Nodup := by
  rw [checkStackAlphabet_clean, stackAlphabet_outline h]
  cases lastNames .stackAlphabet sections <;> simp

theorem checkInitial_outline (h : Clean (checkLabels [] sections)) {states : Table State Span} :
    Clean (checkInitial states (lastNames .initialState sections)).findings ↔
      (listsUnder "initial_state" sections).length = 1 ∧
        ∃ q ∈ namesIn (states.idents State.name), (Outline.ofSections sections).initial = [q] := by
  rw [checkInitial_clean]
  refine Iff.trans ?_ <| @exists_lastNames_iff _ h .initialState (by decide) fun names =>
    ∃ q ∈ namesIn (states.idents State.name), names = [q]
  refine ⟨?_, ?_⟩
  · intro h
    obtain ⟨names, q, hn, hq, hm⟩ := h
    exact ⟨names, hn, q, hm, hq⟩
  · intro h
    obtain ⟨names, hn, q, hm, hq⟩ := h
    exact ⟨names, q, hn, hq, hm⟩

theorem checkFinal_outline (h : Clean (checkLabels [] sections)) {states : Table State Span} :
    Clean (checkHalting .final .finalMissing states (lastNames .finalStates sections)).findings ↔
      (listsUnder "final_states" sections).length = 1 ∧
        (∀ q ∈ (Outline.ofSections sections).final, q ∈ namesIn (states.idents State.name)) ∧
        (Outline.ofSections sections).final.Nodup := by
  rw [checkHalting_clean]
  refine Iff.trans ?_ <| @exists_lastNames_iff _ h .finalStates (by decide) fun names =>
    (∀ q ∈ names, q ∈ namesIn (states.idents State.name)) ∧ names.Nodup
  cases lastNames .finalStates sections <;> simp [Problem.severity]

/-- That there are no rejecting states is no error. -/
theorem checkRejecting_outline (h : Clean (checkLabels [] sections)) {states : Table State Span} :
    Clean (checkHalting .rejecting .rejectingMissing states (lastNames .rejectingStates sections)).findings ↔
      (∀ q ∈ (Outline.ofSections sections).rejecting, q ∈ namesIn (states.idents State.name)) ∧
        (Outline.ofSections sections).rejecting.Nodup := by
  have hn : namesUnder "rejecting_states" sections = _ := @namesUnder_eq _ h .rejectingStates (by decide)
  rw [checkHalting_clean]
  simp only [Outline.ofSections]
  rw [hn]
  cases lastNames .rejectingStates sections <;> simp [Problem.severity, namesIn]

/-- The names that transitions may use. -/
def declaredIn (sections : List (Located Section)) : Declared where
  states := (checkStates (lastNames .states sections)).value
  alphabet := (checkAlphabet (lastNames .alphabet sections)).value
  stackAlphabet := (checkStackAlphabet (lastNames .stackAlphabet sections)).value

variable (h : Clean (checkLabels [] sections))

include h

theorem idents_states (hs : Clean (checkStates (lastNames .states sections)).findings) :
    (declaredIn sections).states.idents State.name = namesUnder "states" sections := by
  have hn : namesUnder "states" sections = _ := @namesUnder_eq _ h .states (by decide)
  exact (idents_declareSome accepts_state rfl rfl hs).trans hn.symm

theorem idents_alphabet (hs : Clean (checkAlphabet (lastNames .alphabet sections)).findings) :
    (declaredIn sections).alphabet.idents Letter.text = namesUnder "alphabet" sections := by
  have hn : namesUnder "alphabet" sections = _ := @namesUnder_eq _ h .alphabet (by decide)
  exact (idents_declareSome accepts_letter rfl rfl hs).trans hn.symm

theorem idents_stackAlphabet (hs : Clean (checkStackAlphabet (lastNames .stackAlphabet sections)).findings) :
    (declaredIn sections).stackAlphabet.map (Table.idents Symbol.name) =
      (listsUnder "stack_alphabet" sections).head?.map Located.value := by
  have hl : listsUnder "stack_alphabet" sections = _ := @listsUnder_eq _ h .stackAlphabet (by decide)
  rw [hl]
  refine (idents_checkStackAlphabet hs).trans ?_
  cases lastNames .stackAlphabet sections <;> rfl

theorem declaredIn_matches (hs : Clean (checkStates (lastNames .states sections)).findings)
    (ha : Clean (checkAlphabet (lastNames .alphabet sections)).findings)
    (hk : Clean (checkStackAlphabet (lastNames .stackAlphabet sections)).findings) :
    (declaredIn sections).Matches (Outline.ofSections sections) where
  states := congrArg namesIn (idents_states h hs)
  alphabet := congrArg namesIn (idents_alphabet h ha)
  stackAlphabet := by
    have hidents := congrArg (Option.map namesIn) (idents_stackAlphabet h hk)
    rwa [Option.map_map, Option.map_map] at hidents
  symbols_free symbols hsymbols := ((checkStackAlphabet_outline h).mp hk symbols hsymbols).1

theorem checkMoves_outline (hm : (declaredIn sections).Matches (Outline.ofSections sections)) :
    Clean (checkMoves (declaredIn sections) (lastGroups sections)).findings ↔
      (blocksOf sections).length = 1 ∧
        (∀ q ∈ (Outline.ofSections sections).headers, q ∈ (Outline.ofSections sections).states) ∧
        (∀ r ∈ (Outline.ofSections sections).rules, (Outline.ofSections sections).Allows r) ∧
        ((Outline.ofSections sections).rules.map Rule.origin).Nodup := by
  have hb := blocksOf_eq h
  cases hg : lastGroups sections with
  | none =>
    rw [hg] at hb
    simp [checkMoves, hb, Problem.severity]
  | some groups =>
    have hrules : (Outline.ofSections sections).rules = rulesOf groups := by simp [Outline.ofSections, hb, hg, rulesOf]
    have hheaders : (Outline.ofSections sections).headers = groups.map fun g => g.value.state.value := by
      simp [Outline.ofSections, hb, hg]
    rw [hrules, hheaders, hb, hg, checkMoves, checkGroups_clean hm]
    simp only [Table.keys_empty, List.map_nil, List.nil_append, Option.toList_some, List.length_singleton, true_and,
      List.forall_mem_map]
    refine and_congr_right fun _ => and_congr_right fun hallows => ?_
    exact situations_nodup hm hallows

theorem entries_checkMoves (hm : (declaredIn sections).Matches (Outline.ofSections sections))
    (hc : Clean (checkMoves (declaredIn sections) (lastGroups sections)).findings) :
    ((checkMoves (declaredIn sections) (lastGroups sections)).value.mapValues Located.value).entries.map some =
      (Outline.ofSections sections).rules.map Rule.meaning? := by
  have hb := blocksOf_eq h
  cases hg : lastGroups sections with
  | none => simp [hg, checkMoves, Problem.severity] at hc
  | some groups =>
    rw [hg] at hb hc
    have hrules : (Outline.ofSections sections).rules = rulesOf groups := by simp [Outline.ofSections, hb, rulesOf]
    rw [checkMoves, entries_checkGroups hm hc, hrules]
    rfl

end Outlines

/-! ## All sections -/

section Sections

variable {sections : List (Located Section)}

/-- Nothing found in sections is an error exactly when they make sense. -/
theorem checkSections_clean : Clean (checkSections sections).findings ↔ WellFormed sections := by
  simp only [checkSections, clean_append]
  refine ⟨?_, ?_⟩
  · intro h
    obtain ⟨⟨⟨⟨⟨⟨⟨⟨hlabels, hs⟩, ha⟩, hk⟩, hi⟩, hf⟩, hr⟩, -⟩, hmoves⟩ := h
    have hstates : namesIn ((checkStates (lastNames .states sections)).value.idents State.name) =
        (Outline.ofSections sections).states := congrArg namesIn (idents_states hlabels hs)
    obtain ⟨hs1, hsne, hsfree, hsn⟩ := (checkStates_outline hlabels).mp hs
    obtain ⟨ha1, hane, hletters, han⟩ := (checkAlphabet_outline hlabels).mp ha
    have hsymbols := (checkStackAlphabet_outline hlabels).mp hk
    obtain ⟨hi1, hinitial⟩ := (checkInitial_outline hlabels).mp hi
    obtain ⟨hf1, hfinal, hfn⟩ := (checkFinal_outline hlabels).mp hf
    obtain ⟨hrejecting, hrn⟩ := (checkRejecting_outline hlabels).mp hr
    obtain ⟨hm1, hheaders, hrules, hdet⟩ :=
      (checkMoves_outline hlabels (declaredIn_matches hlabels hs ha hk)).mp hmoves
    rw [hstates] at hinitial hfinal hrejecting
    have hcount := (checkLabels_clean.mp hlabels).2
    simp only [List.not_mem_nil, if_false] at hcount
    refine ⟨⟨?_, hs1, ha1, ?_, hi1, hf1, ?_, hm1⟩, ⟨hsne, hsn, hsfree, hane, han, hletters, ?_, ?_, hinitial, hfn,
      hfinal, hrn, hrejecting, hheaders, hrules, hdet⟩⟩
    · exact fun s hmem => kind?_ne_none.mp ((checkLabels_clean.mp hlabels).1 s hmem)
    · exact @length_listsUnder .stackAlphabet (by decide) sections ▸ hcount .stackAlphabet
    · exact @length_listsUnder .rejectingStates (by decide) sections ▸ hcount .rejectingStates
    · exact fun symbols hmem => (hsymbols symbols hmem).2
    · exact fun symbols hmem => (hsymbols symbols hmem).1
  · intro h
    obtain ⟨hcomplete, ho⟩ := h
    have hlabels := hcomplete.checkLabels
    have hs := (checkStates_outline hlabels).mpr
      ⟨hcomplete.states, ho.states_ne_nil, ho.states_free, ho.states_nodup⟩
    have ha := (checkAlphabet_outline hlabels).mpr
      ⟨hcomplete.alphabet, ho.alphabet_ne_nil, ho.letters, ho.alphabet_nodup⟩
    have hk := (checkStackAlphabet_outline hlabels).mpr fun symbols hmem =>
      ⟨ho.symbols_free symbols hmem, ho.symbols_nodup symbols hmem⟩
    have hstates : (Outline.ofSections sections).states =
        namesIn ((checkStates (lastNames .states sections)).value.idents State.name) :=
      congrArg namesIn (idents_states hlabels hs).symm
    have hi := (checkInitial_outline hlabels).mpr ⟨hcomplete.initial, hstates ▸ ho.initial⟩
    have hf := (checkFinal_outline hlabels).mpr ⟨hcomplete.final, hstates ▸ ho.final_states, ho.final_nodup⟩
    have hr := (checkRejecting_outline hlabels).mpr ⟨hstates ▸ ho.rejecting_states, ho.rejecting_nodup⟩
    have hmoves := (checkMoves_outline hlabels (declaredIn_matches hlabels hs ha hk)).mpr
      ⟨hcomplete.transitions, ho.headers, ho.rules, ho.deterministic⟩
    exact ⟨⟨⟨⟨⟨⟨⟨⟨hlabels, hs⟩, ha⟩, hk⟩, hi⟩, hf⟩, hr⟩, checkOverlap_clean _ _⟩, hmoves⟩

theorem checkSections_describes (h : Clean (checkSections sections).findings) :
    ∃ a, (checkSections sections).value.automaton? = some a ∧ Describes sections a := by
  simp only [checkSections, clean_append] at h
  obtain ⟨⟨⟨⟨⟨⟨⟨⟨hlabels, hs⟩, ha⟩, hk⟩, hi⟩, hf⟩, hr⟩, -⟩, hmoves⟩ := h
  obtain ⟨-, q, -, hq⟩ := (checkInitial_outline hlabels).mp hi
  have hn : namesUnder "initial_state" sections = _ := @namesUnder_eq _ hlabels .initialState (by decide)
  have hv := checkInitial_value hi (show namesIn _ = [q] from hn ▸ hq)
  have hm := declaredIn_matches hlabels hs ha hk
  refine ⟨{
    states := (declaredIn sections).states
    alphabet := (declaredIn sections).alphabet
    stackAlphabet := (declaredIn sections).stackAlphabet
    initial := ⟨q⟩
    final := (checkHalting .final .finalMissing (declaredIn sections).states (lastNames .finalStates sections)).value
    rejecting := (checkHalting .rejecting .rejectingMissing (declaredIn sections).states
      (lastNames .rejectingStates sections)).value
    moves := (checkMoves (declaredIn sections) (lastGroups sections)).value.mapValues Located.value },
    ?_, ⟨idents_states hlabels hs, idents_alphabet hlabels ha, idents_stackAlphabet hlabels hk, hq.symm, ?_, ?_, ?_⟩⟩
  · simp only [checkSections, Blueprint.automaton?, hv]
    rfl
  · exact (idents_checkHalting hf).trans (@namesUnder_eq _ hlabels .finalStates (by decide)).symm
  · exact (idents_checkHalting hr).trans (@namesUnder_eq _ hlabels .rejectingStates (by decide)).symm
  · exact entries_checkMoves hlabels hm hmoves

/-- Sections describe one automaton. -/
theorem Describes.unique {a b : Automaton} (ha : Describes sections a) (hb : Describes sections b) : a = b := by
  have hstates := idents_inj accepts_state (ha.states.trans hb.states.symm)
  have halphabet := idents_inj accepts_letter (ha.alphabet.trans hb.alphabet.symm)
  have hfinal := idents_inj accepts_state (ha.final.trans hb.final.symm)
  have hrejecting := idents_inj accepts_state (ha.rejecting.trans hb.rejecting.symm)
  have hinitial := accepts_state.text_inj _ _ (List.head_eq_of_cons_eq (ha.initial.trans hb.initial.symm))
  have hstack : a.stackAlphabet = b.stackAlphabet :=
    (Option.map_inj_right fun _ _ => idents_inj accepts_symbol).mp (ha.stackAlphabet.trans hb.stackAlphabet.symm)
  have hmoves : a.moves = b.moves :=
    Table.ext_entries ((List.map_inj_right fun _ _ => Option.some.inj).mp (ha.moves.trans hb.moves.symm))
  cases a
  cases b
  simp only at hstates halphabet hstack hinitial hfinal hrejecting hmoves
  subst hstates halphabet hstack hinitial hfinal hrejecting hmoves
  rfl

theorem checkSections_eq_some {a : Automaton} :
    Clean (checkSections sections).findings ∧ (checkSections sections).value.automaton? = some a ↔
      WellFormed sections ∧ Describes sections a := by
  rw [← checkSections_clean]
  refine and_congr_right fun h => ?_
  obtain ⟨b, hb, hd⟩ := checkSections_describes h
  rw [hb, Option.some.injEq]
  refine ⟨?_, ?_⟩
  · intro h
    subst h
    exact hd
  · intro ha
    exact hd.unique ha

theorem automaton_ofReading {r : Reading} {a : Automaton} :
    (Definition.ofReading r).automaton = some a ↔
      Clean r.findings ∧ WellFormed r.sections ∧ Describes r.sections a := by
  rw [← checkSections_eq_some, ← and_assoc, ← clean_append, ← any_isError_eq_false]
  simp only [Definition.ofReading_eq]
  split
  · next h => simp [h]
  · next h => simp [h]

/-- A definition whose sections make sense has an automaton, every other has none; and
    its automaton is the one that its sections describe. -/
theorem ofSections_automaton_iff (sections : List (Located Section)) :
    ((Definition.ofSections sections).automaton.isSome = true ↔ WellFormed sections) ∧
      ∀ a, (Definition.ofSections sections).automaton = some a ↔ WellFormed sections ∧ Describes sections a := by
  have heq : ∀ a, (Definition.ofSections sections).automaton = some a ↔
      WellFormed sections ∧ Describes sections a := by
    intro a
    rw [Definition.ofSections, automaton_ofReading]
    exact and_iff_right clean_nil
  refine ⟨?_, heq⟩
  rw [Option.isSome_iff_exists]
  refine ⟨?_, ?_⟩
  · intro h
    obtain ⟨a, ha⟩ := h
    exact ((heq a).mp ha).1
  · intro h
    obtain ⟨a, -, hd⟩ := checkSections_describes (checkSections_clean.mpr h)
    exact ⟨a, (heq a).mpr ⟨h, hd⟩⟩

end Sections

end Pushdown
