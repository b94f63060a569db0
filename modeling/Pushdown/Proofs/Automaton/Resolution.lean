/-
  Pushdown.Proofs.Automaton.Resolution — what the check of a transition takes.

  A transition resolves to an entry exactly when the outline of the declared names allows
  its rule (`resolve_ok`), and is refused with an error otherwise (`resolve_error`). Each
  error is at the name that is at fault.
-/

import Pushdown.Proofs.Automaton.Declaration

namespace Pushdown

/-- The declared names are those of an outline, none of its stack symbols reserved. -/
structure Declared.Matches (d : Declared) (o : Outline) : Prop where
  states : namesIn (d.states.idents State.name) = o.states
  alphabet : namesIn (d.alphabet.idents Letter.text) = o.alphabet
  stackAlphabet : d.stackAlphabet.map (fun t => namesIn (t.idents Symbol.name)) = o.stackAlphabet
  symbols_free : ∀ symbols ∈ o.stackAlphabet, ∀ s ∈ symbols, s ≠ "STACK_END" ∧ s ≠ "INPUT_END"

/-- A reserved name is too long for a letter that is a stack symbol as well. -/
theorem Outline.HasSymbol.free {o : Outline} {name : String} (h : o.HasSymbol name)
    (hfree : ∀ symbols ∈ o.stackAlphabet, ∀ s ∈ symbols, s ≠ "STACK_END" ∧ s ≠ "INPUT_END") :
    name ≠ "STACK_END" ∧ name ≠ "INPUT_END" := by
  unfold HasSymbol at h
  split at h
  · next symbols hs => exact hfree symbols hs name h
  · refine ⟨?_, ?_⟩
    · intro hname
      exact absurd (hname ▸ h.2) (by decide)
    · intro hname
      exact absurd (hname ▸ h.2) (by decide)

/-! ## Names of a transition -/

section Errors

variable {d : Declared} {name : Ident} {f : Finding}

theorem errorAt_of_state (h : d.state name = .error f) : f.ErrorAt (· = name.span) := by
  unfold Declared.state at h
  split at h
  · cases h
  · cases h
    exact errorAt_here rfl (by trivial) rfl

theorem errorAt_of_letter (h : d.letter name = .error f) : f.ErrorAt (· = name.span) := by
  unfold Declared.letter at h
  split at h
  · cases h
    exact errorAt_here rfl (by trivial) rfl
  · split at h
    · cases h
    · cases h
      exact errorAt_here rfl (by trivial) rfl

theorem errorAt_of_stackSymbol (h : d.stackSymbol name = .error f) : f.ErrorAt (· = name.span) := by
  unfold Declared.stackSymbol at h
  split at h
  · cases h
    exact errorAt_here rfl (by trivial) rfl
  · split at h
    · cases h
    · split at h
      · cases h
      · cases h
        exact errorAt_here rfl (by trivial) rfl

theorem errorAt_of_pushed {fits : Bool} (h : d.pushed fits name = .error f) : f.ErrorAt (· = name.span) := by
  unfold Declared.pushed at h
  split at h
  · split at h
    · cases h
    · cases h
      exact errorAt_here rfl (by trivial) rfl
  · exact errorAt_of_stackSymbol h

end Errors

namespace Declared.Matches

variable {d : Declared} {o : Outline}

theorem hasSymbol_iff (hm : d.Matches o) {name : String} : d.hasSymbol ⟨name⟩ = true ↔ o.HasSymbol name := by
  have halphabet := hm.alphabet
  have hstack := hm.stackAlphabet
  unfold Declared.hasSymbol Outline.HasSymbol
  cases hd : d.stackAlphabet with
  | some symbols =>
    rw [hd] at hstack
    rw [← hstack]
    simp only [Option.map_some, Table.contains_eq_true]
    exact (mem_names_iff accepts_symbol).symm
  | none =>
    rw [hd] at hstack
    rw [← hstack, ← halphabet]
    simp only [Option.map_none]
    refine ⟨?_, ?_⟩
    · intro h
      split at h
      · next c hc =>
        have hname := Letter.text_of_ofText? hc
        refine ⟨hname ▸ (mem_names_iff accepts_letter).mpr (Table.contains_eq_true.mp h), ?_⟩
        rw [← hname, Letter.text]
        simp
      · cases h
    · intro h
      obtain ⟨hmem, hlength⟩ := h
      rw [namesIn_idents] at hmem
      obtain ⟨l, hl, rfl⟩ := List.mem_map.mp hmem
      rw [Letter.ofText?_text]
      cases l with
      | char c => exact Table.contains_eq_true.mpr hl
      | inputEnd => exact absurd hlength (by decide)

theorem free (hm : d.Matches o) {name : String} (h : o.HasSymbol name) :
    name ≠ "STACK_END" ∧ name ≠ "INPUT_END" :=
  h.free hm.symbols_free

theorem state_ok (hm : d.Matches o) {name : Ident} {q : State} :
    d.state name = .ok q ↔ name.value ∈ o.states ∧ q = ⟨name.value⟩ := by
  rw [← hm.states, ← contains_state, Declared.state]
  split
  · next h => simp [h, eq_comm]
  · next h => simp [h]

theorem letter_ok (hm : d.Matches o) {name : Ident} {l : Letter} :
    d.letter name = .ok l ↔ name.value ∈ o.alphabet ∧ Letter.ofText? name.value = some l := by
  rw [← hm.alphabet, Declared.letter]
  cases hl : Letter.ofText? name.value with
  | none => simp
  | some k =>
    rw [← Letter.text_of_ofText? hl, mem_names_iff accepts_letter, ← Table.contains_eq_true]
    simp only
    split
    · next h => simp [h]
    · next h => simp [h]

theorem stackSymbol_ok (hm : d.Matches o) {name : Ident} {s : StackSymbol} :
    d.stackSymbol name = .ok s ↔
      (name.value = "STACK_END" ∨ o.HasSymbol name.value) ∧ s = StackSymbol.ofText name.value := by
  unfold Declared.stackSymbol
  by_cases hend : name.value = inputEnd
  · rw [if_pos hend]
    refine iff_of_false (by simp) ?_
    intro hs
    rcases hs.1 with h | h
    · exact absurd (hend.symm.trans h) (by decide)
    · exact (hm.free h).2 hend
  · rw [if_neg hend]
    by_cases hstack : name.value = stackEnd
    · rw [StackSymbol.ofText, if_pos hstack]
      simp only [Except.ok.injEq]
      exact ⟨fun h => ⟨Or.inl hstack, h.symm⟩, fun h => h.2.symm⟩
    · rw [StackSymbol.ofText, if_neg hstack]
      simp only
      rw [or_iff_right (show name.value ≠ "STACK_END" from hstack), ← hm.hasSymbol_iff]
      split
      · next h => simp [h, eq_comm]
      · next h => simp [h]

theorem pushed_ok (hm : d.Matches o) {fits : Bool} {name : Ident} {s : StackSymbol} :
    d.pushed fits name = .ok s ↔
      (o.HasSymbol name.value ∨ name.value = "STACK_END" ∧ fits = true) ∧ s = StackSymbol.ofText name.value := by
  unfold Declared.pushed
  split
  · next h =>
    -- the bottom of the stack
    obtain ⟨-, hs⟩ := hm.stackSymbol_ok.mp h
    have hname : name.value = "STACK_END" := by
      have htext := congrArg StackSymbol.text hs
      rw [StackSymbol.text_ofText] at htext
      exact htext.symm
    have hfree : ¬ o.HasSymbol name.value := fun h => (hm.free h).1 hname
    rw [← hs]
    split
    · next hf => simp [hf, hname, eq_comm]
    · next hf => simp [hf, hfree]
  · next hne =>
    rw [hm.stackSymbol_ok]
    by_cases hname : name.value = "STACK_END"
    · have hs : StackSymbol.ofText name.value = .stackEnd := if_pos hname
      exact absurd (hm.stackSymbol_ok.mpr ⟨Or.inl hname, hs.symm⟩) hne
    · simp [hname]

end Declared.Matches

/-! ## Replacements -/

theorem allOk?_eq_some {α : Type} {parts : List (Except Finding α)} {values : List α} :
    allOk? parts = some values ↔ parts = values.map .ok := by
  induction parts generalizing values with
  | nil => simp [allOk?, eq_comm]
  | cons part rest ih =>
    cases part with
    | error f =>
      refine iff_of_false (by simp [allOk?]) ?_
      intro h
      cases values <;> cases h
    | ok a =>
      rw [allOk?, Option.map_eq_some_iff]
      refine ⟨?_, ?_⟩
      · intro h
        obtain ⟨later, hl, rfl⟩ := h
        rw [ih.mp hl]
        rfl
      · intro h
        cases values with
        | nil => cases h
        | cons b later =>
          simp only [List.map_cons, List.cons.injEq, Except.ok.injEq] at h
          exact ⟨later, ih.mpr h.2, by rw [h.1]⟩

theorem exists_error_of_allOk? {α : Type} {parts : List (Except Finding α)} (h : allOk? parts = none) :
    ∃ f, .error f ∈ parts := by
  induction parts with
  | nil => cases h
  | cons part rest ih =>
    cases part with
    | error f => exact ⟨f, List.mem_cons_self⟩
    | ok a =>
      obtain ⟨f, hf⟩ := ih (Option.map_eq_none_iff.mp h)
      exact ⟨f, List.mem_cons_of_mem _ hf⟩

theorem errorAt_of_replacement {d : Declared} {top : Option StackSymbol} {names : List Ident} {f : Finding}
    (h : .error f ∈ d.replacement top names) : f.ErrorAt fun s => ∃ i ∈ names, s = i.span := by
  cases names with
  | nil => cases h
  | cons first rest =>
    rcases List.mem_cons.mp h with h | h
    · exact (errorAt_of_pushed h.symm).imp fun s hs => ⟨first, .head _, hs⟩
    · obtain ⟨name, hname, hn⟩ := List.mem_map.mp h
      exact (errorAt_of_pushed hn).imp fun s hs => ⟨name, .tail _ hname, hs⟩

theorem map_eq_map_ok {ε α β : Type} {f : α → Except ε β} {P : α → Prop} {g : α → β}
    (hf : ∀ a b, f a = .ok b ↔ P a ∧ b = g a) {as : List α} {bs : List β} :
    as.map f = bs.map .ok ↔ (∀ a ∈ as, P a) ∧ bs = as.map g := by
  induction as generalizing bs with
  | nil => simp [eq_comm]
  | cons a rest ih =>
    cases bs with
    | nil => simp
    | cons b later =>
      simp only [List.map_cons, List.cons.injEq, List.mem_cons, forall_eq_or_imp, hf, ih]
      refine ⟨?_, ?_⟩
      · intro h
        obtain ⟨⟨hp, hb⟩, hall, hl⟩ := h
        exact ⟨⟨hp, hall⟩, hb, hl⟩
      · intro h
        obtain ⟨⟨hp, hall⟩, hb, hl⟩ := h
        exact ⟨⟨hp, hb⟩, hall, hl⟩

theorem replacement_ok {d : Declared} {o : Outline} (hm : d.Matches o) {top : Option StackSymbol} {names : List Ident}
    {push : List StackSymbol} :
    allOk? (d.replacement top names) = some push ↔
      (∀ s ∈ (namesIn names).head?, o.HasSymbol s ∨ s = "STACK_END" ∧ top = some .stackEnd) ∧
        (∀ s ∈ (namesIn names).tail, o.HasSymbol s) ∧ push = (namesIn names).map StackSymbol.ofText := by
  rw [allOk?_eq_some]
  cases names with
  | nil => simp [Declared.replacement, namesIn]
  | cons first rest =>
    have hrest := fun later => @map_eq_map_ok _ _ _ (d.pushed false) (o.HasSymbol ·.value)
      (StackSymbol.ofText ·.value) (fun name s => by simp [hm.pushed_ok]) rest later
    cases push with
    | nil => simp [Declared.replacement, namesIn]
    | cons s later =>
      simp only [Declared.replacement, List.map_cons, List.cons.injEq, hm.pushed_ok, hrest, namesIn, beq_iff_eq,
        List.head?_cons, List.tail_cons, Option.mem_some, forall_eq', List.forall_mem_map, List.map_map,
        Function.comp_def]
      refine ⟨?_, ?_⟩
      · intro h
        obtain ⟨⟨hfirst, hs⟩, hall, hl⟩ := h
        exact ⟨hfirst, hall, hs, hl⟩
      · intro h
        obtain ⟨hfirst, hall, hs, hl⟩ := h
        exact ⟨⟨hfirst, hs⟩, hall, hl⟩

/-! ## A transition -/

section Resolve

variable {d : Declared} {o : Outline} {state : State} {t : TransitionLine}

theorem resolve_ok (hm : d.Matches o) {entry : Situation × Move} :
    resolve d state t = .ok entry ↔
      o.Allows (Rule.ofTransition state.name t) ∧ (Rule.ofTransition state.name t).meaning? = some entry := by
  simp only [resolve]
  refine ⟨?_, ?_⟩
  · intro h
    split at h
    · next letter top next push hletter htop hnext hpush =>
      cases h
      obtain ⟨hl, hl'⟩ := hm.letter_ok.mp hletter
      obtain ⟨ht, ht'⟩ := hm.stackSymbol_ok.mp htop
      obtain ⟨hn, rfl⟩ := hm.state_ok.mp hnext
      obtain ⟨hfirst, hrest, rfl⟩ := (replacement_ok hm).mp hpush
      rw [htop] at hfirst
      refine ⟨⟨hl, hn, ht, ?_, hrest⟩, ?_⟩
      · intro s hs
        rcases hfirst s hs with hsymbol | ⟨hbottom, hend⟩
        · exact Or.inl hsymbol
        · have htext := congrArg StackSymbol.text (Option.some.inj hend)
          rw [ht', StackSymbol.text_ofText] at htext
          exact Or.inr ⟨hbottom, htext⟩
      · simp [Rule.meaning?, Rule.ofTransition, hl', ← ht', namesIn]
    · cases h
  · intro h
    obtain ⟨⟨hl, hn, ht, hfirst, hrest⟩, he⟩ := h
    obtain ⟨letter, hletter, rfl⟩ := Option.map_eq_some_iff.mp he
    have htop := hm.stackSymbol_ok.mpr ⟨ht, rfl⟩
    have hpush := (@replacement_ok d o hm (d.stackSymbol t.top).toOption t.push.value _).mpr ⟨?_, hrest, rfl⟩
    · simp only [hm.letter_ok.mpr ⟨hl, hletter⟩, htop, hm.state_ok.mpr ⟨hn, rfl⟩]
      rw [htop] at hpush
      simp only [hpush]
      rfl
    · intro s hs
      rcases hfirst s hs with hsymbol | ⟨hbottom, hend⟩
      · exact Or.inl hsymbol
      · rw [htop]
        exact Or.inr ⟨hbottom, congrArg some (if_pos hend)⟩

theorem resolve_error {faults : List Finding} (h : resolve d state t = .error faults) : ¬ Clean faults := by
  intro hc
  simp only [resolve] at h
  split at h
  · cases h
  · next hne =>
    cases h
    simp only [clean_append] at hc
    obtain ⟨⟨⟨hl, ht⟩, hn⟩, hp⟩ := hc
    cases hletter : d.letter t.letter with
    | error f => simp [hletter, fault?, (errorAt_of_letter hletter).isError] at hl
    | ok letter =>
    cases htop : d.stackSymbol t.top with
    | error f => simp [htop, fault?, (errorAt_of_stackSymbol htop).isError] at ht
    | ok top =>
    cases hnext : d.state t.next with
    | error f => simp [hnext, fault?, (errorAt_of_state hnext).isError] at hn
    | ok next =>
    cases hpush : allOk? (d.replacement (d.stackSymbol t.top).toOption t.push.value) with
    | some push => exact hne _ _ _ _ hletter htop hnext hpush
    | none =>
      obtain ⟨f, hf⟩ := exists_error_of_allOk? hpush
      have hclean := hp f (List.mem_filterMap.mpr ⟨_, hf, rfl⟩)
      rw [(errorAt_of_replacement hf).isError] at hclean
      cases hclean

end Resolve

end Pushdown
