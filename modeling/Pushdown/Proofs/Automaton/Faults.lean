/-
  Pushdown.Proofs.Automaton.Faults — what is found in a block of transitions, and in what order.

  The check of a transition looks its names up in tables, takes a longer list of findings
  for a sign that something was wrong, and knows an earlier transition only if it was
  accepted. `blockFindings` says what there is to find by the names alone: by what the last
  section of each kind lists, and by the transitions that stand before. `transitions_diagnosed`:
  whatever is wrong with the sections, that is what is found, after what would be found
  without any transitions.
-/

import Pushdown.Proofs.Automaton.Kept

namespace Pushdown

/-! ## Declared names -/

/-- A name stands in the last list under a label. -/
def ListedUnder (label : String) (sections : List (Located Section)) (name : String) : Prop :=
  ∃ names ∈ (listsUnder label sections).getLast?, name ∈ namesIn names.value

instance (label : String) (sections : List (Located Section)) (name : String) :
    Decidable (ListedUnder label sections name) :=
  inferInstanceAs (Decidable (∃ names ∈ (listsUnder label sections).getLast?, name ∈ namesIn names.value))

def DeclaresState (sections : List (Located Section)) (name : String) : Prop :=
  ListedUnder "states" sections name ∧ name ≠ "STACK_END" ∧ name ≠ "INPUT_END"

instance (sections : List (Located Section)) (name : String) : Decidable (DeclaresState sections name) :=
  inferInstanceAs (Decidable (_ ∧ _))

/-- A stack symbol is listed as one, or, where no section lists any, is a letter of one
    character. -/
def DeclaresSymbol (sections : List (Located Section)) (name : String) : Prop :=
  (ListedUnder "stack_alphabet" sections name ∧ name ≠ "STACK_END" ∧ name ≠ "INPUT_END") ∨
    listsUnder "stack_alphabet" sections = [] ∧ ListedUnder "alphabet" sections name ∧ name.length = 1

instance (sections : List (Located Section)) (name : String) : Decidable (DeclaresSymbol sections name) :=
  inferInstanceAs (Decidable (_ ∨ _))

/-! ## Faults of a transition -/

/-- The letter of a transition is none, or is not in the alphabet. -/
def LetterFault (sections : List (Located Section)) (name : String) : Prop :=
  ¬ (name = "INPUT_END" ∨ name.length = 1) ∨ ¬ ListedUnder "alphabet" sections name

instance (sections : List (Located Section)) (name : String) : Decidable (LetterFault sections name) :=
  inferInstanceAs (Decidable (_ ∨ _))

/-- What stands for a stack symbol is the end of the input, or a symbol that is not declared. -/
def SymbolFault (sections : List (Located Section)) (name : String) : Prop :=
  name = "INPUT_END" ∨ name ≠ "STACK_END" ∧ ¬ DeclaresSymbol sections name

instance (sections : List (Located Section)) (name : String) : Decidable (SymbolFault sections name) :=
  inferInstanceAs (Decidable (_ ∨ _))

/-- Element `i` of the replacement of `top`: the bottom of the stack can only be put back
    first, and where it was seen. -/
def PushFault (sections : List (Located Section)) (top : String) (i : Nat) (name : String) : Prop :=
  SymbolFault sections name ∨ name = "STACK_END" ∧ (i ≠ 0 ∨ top ≠ "STACK_END")

instance (sections : List (Located Section)) (top : String) (i : Nat) (name : String) :
    Decidable (PushFault sections top i name) :=
  inferInstanceAs (Decidable (_ ∨ _))

/-- What is said of a letter at fault. -/
def letterProblem (name : String) : Problem :=
  if name = "INPUT_END" ∨ name.length = 1 then .transitionLetterUndeclared else .transitionLetterTooLong

def symbolProblem (sections : List (Located Section)) (name : String) : Problem :=
  if name = "INPUT_END" then .inputEndOnStack
  else .transitionSymbolUndeclared (!(listsUnder "stack_alphabet" sections).isEmpty)

def pushProblem (sections : List (Located Section)) (name : String) : Problem :=
  if name = "STACK_END" then .stackEndMisplaced else symbolProblem sections name

/-- One problem at a place if there is a fault, and none otherwise. -/
def problemIf (faulty : Prop) [Decidable faulty] (p : Problem) (place : Span) : List Finding :=
  if faulty then [p.here place] else []

/-- What is wrong with the names of a transition, in their order. -/
def nameFaults (sections : List (Located Section)) (t : TransitionLine) : List Finding :=
  problemIf (LetterFault sections t.letter.value) (letterProblem t.letter.value) t.letter.span ++
    problemIf (SymbolFault sections t.top.value) (symbolProblem sections t.top.value) t.top.span ++
    problemIf (¬ DeclaresState sections t.next.value) .transitionStateUndeclared t.next.span ++
    t.push.value.zipIdx.flatMap fun (name, i) =>
      problemIf (PushFault sections t.top.value i name.value) (pushProblem sections name.value) name.span

/-! ## Faults of a block -/

/-- A transition, with the name of the state it leaves. -/
structure Departure where
  state : String
  line : Located TransitionLine

/-- The names of the state, the letter and the stack top. -/
def Departure.origin (d : Departure) : String × String × String :=
  (d.state, d.line.value.letter.value, d.line.value.top.value)

/-- The first of some transitions that is without fault and has the same origin. -/
def firstAlike (sections : List (Located Section)) (earlier : List Departure) (d : Departure) : Option Departure :=
  earlier.find? fun e => nameFaults sections e.line.value = [] ∧ e.origin = d.origin

/-- What is found in a transition that stands after some others: the faults of its names; or
    else, where it repeats one of them that is without fault, that it does. -/
def transitionFindings (sections : List (Located Section)) (earlier : List Departure) (d : Departure) : List Finding :=
  nameFaults sections d.line.value ++
    if nameFaults sections d.line.value = [] then
      (firstAlike sections earlier d).toList.map fun e => (Problem.transitionRepeated e.line.span).here d.line.span
    else []

/-- The elements of a list, each with those before it, of which some come from `earlier`. -/
def withEarlier {α : Type} (earlier : List α) : List α → List (List α × α)
  | [] => []
  | a :: rest => (earlier, a) :: withEarlier (earlier ++ [a]) rest

def StateGroup.departures (g : StateGroup) : List Departure := g.transitions.map (Departure.mk g.state.value)

/-- The transitions of groups, but for those under a state that is not declared. -/
def checkedDepartures (sections : List (Located Section)) (groups : List (Located StateGroup)) : List Departure :=
  groups.flatMap fun g => if DeclaresState sections g.value.state.value then g.value.departures else []

/-- What is found in a group that stands after some others. -/
def groupFindings (sections : List (Located Section)) (before : List (Located StateGroup)) (g : StateGroup) :
    List Finding :=
  if DeclaresState sections g.state.value then
    (withEarlier (checkedDepartures sections before) g.departures).flatMap fun (earlier, d) =>
      transitionFindings sections earlier d
  else [Problem.transitionStateUndeclared.here g.state.span]

/-- What is found in a block of transitions. -/
def blockFindings (sections : List (Located Section)) (groups : List (Located StateGroup)) : List Finding :=
  (withEarlier [] groups).flatMap fun (before, g) => groupFindings sections before g.value

/-- A section whose block, if it is one, holds no transitions. -/
def Section.emptied : Section → Section
  | .list label items => .list label items
  | .transitions label _ => .transitions label []

def withoutTransitions (sections : List (Located Section)) : List (Located Section) :=
  sections.map fun s => ⟨s.value.emptied, s.span⟩

/-! ## Declared names in the tables -/

section Declared

variable {sections : List (Located Section)} {name : String}

theorem lastNames_eq_getLast? (kind : SectionKind) (hk : kind ≠ .transitionFunction)
    (sections : List (Located Section)) :
    lastNames kind sections = (listsUnder kind.label sections).getLast? := by
  rw [lastNames, names?_eq_listsUnder hk]

theorem mem_names_declareSome {κ : Type} [DecidableEq κ] {accept : String → Except Problem κ} {text : κ → String}
    (ha : Accepts accept text) {repeated missing empty : Problem} {names? : Option (Located (List Ident))} :
    name ∈ namesIn ((declareSome accept repeated missing empty names?).value.idents text) ↔
      (∃ names ∈ names?, name ∈ namesIn names.value) ∧ ∃ key, accept name = .ok key := by
  cases names? with
  | none => simp [declareSome, namesIn]
  | some names => simpa [declareSome] using mem_names_declare ha

theorem mem_states : name ∈ (declaredIn sections).outline.states ↔ DeclaresState sections name := by
  have hlast := lastNames_eq_getLast? .states (by decide) sections
  rw [Declared.outline, declaredIn, checkStates, mem_names_declareSome accepts_state, acceptState_ok, hlast]
  rfl

theorem mem_alphabet :
    name ∈ (declaredIn sections).outline.alphabet ↔
      ListedUnder "alphabet" sections name ∧ (name = "INPUT_END" ∨ name.length = 1) := by
  have hlast := lastNames_eq_getLast? .alphabet (by decide) sections
  rw [Declared.outline, declaredIn, checkAlphabet, mem_names_declareSome accepts_letter, acceptLetter_ok, hlast]
  rfl

theorem lastNames_stackAlphabet_eq_none :
    lastNames .stackAlphabet sections = none ↔ listsUnder "stack_alphabet" sections = [] := by
  rw [lastNames_eq_getLast? _ (by decide), List.getLast?_eq_none_iff]
  rfl

theorem isSome_stackAlphabet (sections : List (Located Section)) :
    (declaredIn sections).stackAlphabet.isSome = !(listsUnder "stack_alphabet" sections).isEmpty := by
  have hnone := @lastNames_stackAlphabet_eq_none sections
  rw [declaredIn]
  cases hn : lastNames .stackAlphabet sections with
  | none =>
    rw [hnone.mp hn]
    rfl
  | some names =>
    have hne : listsUnder "stack_alphabet" sections ≠ [] := by
      intro hnil
      cases hn.symm.trans (hnone.mpr hnil)
    rw [List.isEmpty_eq_false_iff.mpr hne]
    rfl

theorem hasSymbol_iff_declares : (declaredIn sections).outline.HasSymbol name ↔ DeclaresSymbol sections name := by
  have hlast := lastNames_eq_getLast? .stackAlphabet (by decide) sections
  have hnone := @lastNames_stackAlphabet_eq_none sections
  unfold Outline.HasSymbol DeclaresSymbol
  cases hn : lastNames .stackAlphabet sections with
  | some names =>
    have hsome : (declaredIn sections).outline.stackAlphabet =
        some (namesIn ((declare acceptSymbol .symbolRepeated ∅ names.value).value.idents Symbol.name)) := by
      rw [Declared.outline, declaredIn, hn]
      rfl
    have hne : listsUnder "stack_alphabet" sections ≠ [] := by
      intro hnil
      cases hn.symm.trans (hnone.mpr hnil)
    have hlisted : ListedUnder "stack_alphabet" sections name ↔ name ∈ namesIn names.value := by
      have hnames : (listsUnder "stack_alphabet" sections).getLast? = some names := hlast.symm.trans hn
      simp [ListedUnder, hnames]
    simp only [hsome, mem_names_declare accepts_symbol, acceptSymbol_ok, hlisted, hne, false_and, or_false]
  | none =>
    have hnil := hnone.mp hn
    have hunlisted : (declaredIn sections).outline.stackAlphabet = none := by
      rw [Declared.outline, declaredIn, hn]
      rfl
    simp only [hunlisted, mem_alphabet]
    refine ⟨?_, ?_⟩
    · intro h
      obtain ⟨⟨hlisted, -⟩, hlength⟩ := h
      exact .inr ⟨hnil, hlisted, hlength⟩
    · intro h
      rcases h with ⟨⟨names, hnames, -⟩, -⟩ | ⟨-, hlisted, hlength⟩
      · rw [hnil] at hnames
        cases hnames
      · exact ⟨⟨hlisted, .inr hlength⟩, hlength⟩

end Declared

/-! ## Faults of a part -/

section Parts

variable {sections : List (Located Section)}

theorem problemIf_of_pos {faulty : Prop} [Decidable faulty] (h : faulty) (p : Problem) (place : Span) :
    problemIf faulty p place = [p.here place] := if_pos h

theorem problemIf_of_neg {faulty : Prop} [Decidable faulty] (h : ¬ faulty) (p : Problem) (place : Span) :
    problemIf faulty p place = [] := if_neg h

theorem state_eq (name : Ident) :
    (declaredIn sections).state name =
      if DeclaresState sections name.value then .ok ⟨name.value⟩
      else .error (Problem.transitionStateUndeclared.here name.span) := by
  have hstate : (declaredIn sections).states.contains ⟨name.value⟩ = true ↔ DeclaresState sections name.value :=
    contains_state.trans mem_states
  simp only [Declared.state, hstate]

theorem faults_state (name : Ident) :
    (fault? ((declaredIn sections).state name)).toList =
      problemIf (¬ DeclaresState sections name.value) .transitionStateUndeclared name.span := by
  rw [state_eq]
  split
  · next h =>
    rw [problemIf_of_neg (not_not_intro h)]
    rfl
  · next h =>
    rw [problemIf_of_pos h]
    rfl

theorem faults_letter (name : Ident) :
    (fault? ((declaredIn sections).letter name)).toList =
      problemIf (LetterFault sections name.value) (letterProblem name.value) name.span := by
  unfold Declared.letter
  cases hl : Letter.ofText? name.value with
  | none =>
    have hlong : ¬ (name.value = "INPUT_END" ∨ name.value.length = 1) := by
      rw [← Letter.ofText?_isSome, hl]
      decide
    rw [problemIf_of_pos (.inl hlong), letterProblem, if_neg hlong]
    rfl
  | some l =>
    have hshort : name.value = "INPUT_END" ∨ name.value.length = 1 := by
      rw [← Letter.ofText?_isSome, hl]
      rfl
    have hletter : (declaredIn sections).alphabet.contains l = true ↔ ListedUnder "alphabet" sections name.value := by
      rw [Table.contains_eq_true, ← mem_names_iff accepts_letter, Letter.text_of_ofText? hl]
      exact mem_alphabet.trans (and_iff_left hshort)
    simp only
    split
    · next h =>
      have hfine : ¬ LetterFault sections name.value := not_or.mpr ⟨not_not_intro hshort, not_not_intro (hletter.mp h)⟩
      rw [problemIf_of_neg hfine]
      rfl
    · next h =>
      rw [problemIf_of_pos (.inr (mt hletter.mpr h)), letterProblem, if_pos hshort]
      rfl

theorem faults_stackSymbol (name : Ident) :
    (fault? ((declaredIn sections).stackSymbol name)).toList =
      problemIf (SymbolFault sections name.value) (symbolProblem sections name.value) name.span := by
  have hsymbol : (declaredIn sections).hasSymbol ⟨name.value⟩ = true ↔ DeclaresSymbol sections name.value :=
    (declaredIn_matches_outline sections).hasSymbol_iff.trans hasSymbol_iff_declares
  unfold Declared.stackSymbol
  by_cases hinput : name.value = inputEnd
  · have hname : name.value = "INPUT_END" := hinput
    rw [if_pos hinput, problemIf_of_pos (.inl hname), symbolProblem, if_pos hname]
    rfl
  · rw [if_neg hinput]
    by_cases hbottom : name.value = stackEnd
    · have hfine : ¬ SymbolFault sections name.value := by
        intro h
        rcases h with h | ⟨h, -⟩
        · exact hinput h
        · exact h hbottom
      rw [StackSymbol.ofText, if_pos hbottom, problemIf_of_neg hfine]
      rfl
    · rw [StackSymbol.ofText, if_neg hbottom]
      simp only
      split
      · next h =>
        have hfine : ¬ SymbolFault sections name.value := by
          intro hfault
          rcases hfault with hfault | ⟨-, hfault⟩
          · exact hinput hfault
          · exact hfault (hsymbol.mp h)
        rw [problemIf_of_neg hfine]
        rfl
      · next h =>
        rw [problemIf_of_pos (.inr ⟨hbottom, mt hsymbol.mpr h⟩), symbolProblem,
          if_neg (show name.value ≠ "INPUT_END" from hinput), ← isSome_stackAlphabet]
        rfl

theorem stackSymbol_eq_stackEnd {d : Declared} {name : Ident} :
    d.stackSymbol name = .ok .stackEnd ↔ name.value = "STACK_END" := by
  unfold Declared.stackSymbol
  by_cases hinput : name.value = inputEnd
  · have hname : name.value ≠ "STACK_END" := by
      rw [hinput]
      decide
    rw [if_pos hinput]
    exact iff_of_false (by simp) hname
  · rw [if_neg hinput]
    by_cases hbottom : name.value = stackEnd
    · rw [StackSymbol.ofText, if_pos hbottom]
      exact iff_of_true rfl hbottom
    · rw [StackSymbol.ofText, if_neg hbottom]
      refine iff_of_false ?_ hbottom
      simp only
      split <;> simp

/-- Only the bottom of the stack, which is no fault as a symbol, may not fit. -/
theorem faults_pushed {fits : Bool} {top : String} {i : Nat} (hfits : fits = true ↔ i = 0 ∧ top = "STACK_END")
    (name : Ident) :
    (fault? ((declaredIn sections).pushed fits name)).toList =
      problemIf (PushFault sections top i name.value) (pushProblem sections name.value) name.span := by
  unfold Declared.pushed
  by_cases hbottom : name.value = "STACK_END"
  · have hsymbol : ¬ SymbolFault sections name.value := by
      rw [hbottom]
      intro h
      rcases h with h | ⟨h, -⟩
      · exact absurd h (by decide)
      · exact h rfl
    simp only [stackSymbol_eq_stackEnd.mpr hbottom]
    by_cases hf : fits = true
    · have hfine : ¬ PushFault sections top i name.value := by
        obtain ⟨hi, htop⟩ := hfits.mp hf
        intro h
        rcases h with h | ⟨-, h | h⟩
        · exact hsymbol h
        · exact h hi
        · exact h htop
      rw [if_pos hf, problemIf_of_neg hfine]
      rfl
    · have hfault : PushFault sections top i name.value :=
        .inr ⟨hbottom, Decidable.not_and_iff_or_not.mp (mt hfits.mpr hf)⟩
      rw [if_neg hf, problemIf_of_pos hfault, pushProblem, if_pos hbottom]
      rfl
  · have hfault : PushFault sections top i name.value ↔ SymbolFault sections name.value :=
      or_iff_left fun h => hbottom h.1
    split
    · next h => exact absurd (stackSymbol_eq_stackEnd.mp h) hbottom
    · simp only [hfault, faults_stackSymbol, pushProblem, if_neg hbottom]

theorem faults_cons {α : Type} (part : Except Finding α) (parts : List (Except Finding α)) :
    (part :: parts).filterMap fault? = (fault? part).toList ++ parts.filterMap fault? := by
  cases part <;> rfl

/-- Past the first symbol the bottom never fits. -/
theorem faults_rest (top : String) (rest : List Ident) {k : Nat} (hk : k ≠ 0) :
    (rest.map ((declaredIn sections).pushed false)).filterMap fault? =
      (rest.zipIdx k).flatMap fun (name, i) =>
        problemIf (PushFault sections top i name.value) (pushProblem sections name.value) name.span := by
  induction rest generalizing k with
  | nil => rfl
  | cons name rest ih =>
    have hfits : false = true ↔ k = 0 ∧ top = "STACK_END" := by simp [hk]
    rw [List.map_cons, faults_cons, faults_pushed hfits, ih k.succ_ne_zero]
    rfl

theorem faults_replacement {top : Option StackSymbol} {topName : String}
    (htop : top = some .stackEnd ↔ topName = "STACK_END") (names : List Ident) :
    ((declaredIn sections).replacement top names).filterMap fault? =
      names.zipIdx.flatMap fun (name, i) =>
        problemIf (PushFault sections topName i name.value) (pushProblem sections name.value) name.span := by
  cases names with
  | nil => rfl
  | cons first rest =>
    have hfits : (top == some .stackEnd) = true ↔ 0 = 0 ∧ topName = "STACK_END" := by simp [htop]
    rw [Declared.replacement, faults_cons, faults_pushed hfits, faults_rest topName rest Nat.one_ne_zero]
    rfl

theorem nameFaults_eq (t : TransitionLine) :
    nameFaults sections t =
      (fault? ((declaredIn sections).letter t.letter)).toList ++
        (fault? ((declaredIn sections).stackSymbol t.top)).toList ++
        (fault? ((declaredIn sections).state t.next)).toList ++
        ((declaredIn sections).replacement ((declaredIn sections).stackSymbol t.top).toOption t.push.value).filterMap
          fault? := by
  have htop : ((declaredIn sections).stackSymbol t.top).toOption = some .stackEnd ↔ t.top.value = "STACK_END" := by
    rw [← stackSymbol_eq_stackEnd (d := declaredIn sections)]
    cases (declaredIn sections).stackSymbol t.top <;> simp [Except.toOption]
  rw [faults_letter, faults_stackSymbol, faults_state, faults_replacement htop]
  rfl

variable {state : State} {t : TransitionLine}

theorem nameFaults_of_error {faults : List Finding} (h : resolve (declaredIn sections) state t = .error faults) :
    nameFaults sections t = faults := by
  rw [nameFaults_eq]
  simp only [resolve] at h
  split at h
  · cases h
  · exact Except.error.inj h

theorem nameFaults_of_ok {entry : Situation × Move} (h : resolve (declaredIn sections) state t = .ok entry) :
    nameFaults sections t = [] := by
  rw [nameFaults_eq]
  simp only [resolve] at h
  split at h
  · next letter top next push hletter htop hnext hpush =>
    rw [allOk?_eq_some] at hpush
    have hnone : ((push.map Except.ok : List (Except Finding StackSymbol)).filterMap fault?) = [] := by
      simp [List.filterMap_map, Function.comp_def, fault?]
    rw [hpush, hletter, htop, hnext, hnone]
    rfl
  · cases h

end Parts

/-! ## The moves that are kept -/

section Moves

variable {sections : List (Located Section)} {moves : Table Situation (Located Move)} {earlier : List Departure}
  {p q : Departure} {entry entry' : Situation × Move}

theorem firstAlike_concat (earlier : List Departure) (p q : Departure) :
    firstAlike sections (earlier ++ [p]) q =
      (firstAlike sections earlier q).or
        (if nameFaults sections p.line.value = [] ∧ p.origin = q.origin then some p else none) := by
  rw [firstAlike, List.find?_append, List.find?_singleton, firstAlike]
  simp only [decide_eq_true_eq]

theorem situation_eq_iff_origin (hp : resolve (declaredIn sections) ⟨p.state⟩ p.line.value = .ok entry)
    (hq : resolve (declaredIn sections) ⟨q.state⟩ q.line.value = .ok entry') :
    entry.1 = entry'.1 ↔ p.origin = q.origin := by
  have hm := declaredIn_matches_outline sections
  exact Rule.situation_eq_iff ((resolve_ok hm).mp hp).2 ((resolve_ok hm).mp hq).2

/-- A table holds, for each situation, the place of the first transition without fault that
    is for it. -/
def KeepsFirst (sections : List (Located Section)) (moves : Table Situation (Located Move))
    (earlier : List Departure) : Prop :=
  ∀ q entry, resolve (declaredIn sections) ⟨q.state⟩ q.line.value = .ok entry →
    (moves.get? entry.1).map Located.span = (firstAlike sections earlier q).map fun e => e.line.span

namespace KeepsFirst

theorem start (sections : List (Located Section)) : KeepsFirst sections ∅ [] := fun _ _ _ => rfl

/-- A transition with a fault is not kept. -/
theorem faulty (h : KeepsFirst sections moves earlier) (hp : nameFaults sections p.line.value ≠ []) :
    KeepsFirst sections moves (earlier ++ [p]) := by
  intro q entry hq
  rw [firstAlike_concat, if_neg fun hlike => hp hlike.1, Option.or_none]
  exact h q entry hq

/-- Nor is one whose situation has a move. -/
theorem repeated (h : KeepsFirst sections moves earlier)
    (hp : resolve (declaredIn sections) ⟨p.state⟩ p.line.value = .ok entry) {previous : Located Move}
    (hg : moves.get? entry.1 = some previous) : KeepsFirst sections moves (earlier ++ [p]) := by
  intro q entry' hq
  have hkept := h q entry' hq
  rw [firstAlike_concat]
  by_cases horigin : p.origin = q.origin
  · have hsituation := (situation_eq_iff_origin hp hq).mpr horigin
    rw [← hsituation, hg] at hkept ⊢
    rw [hkept]
    cases hlike : firstAlike sections earlier q with
    | none => simp [hlike] at hkept
    | some e => rfl
  · rw [if_neg fun hlike => horigin hlike.2, Option.or_none]
    exact hkept

/-- Any other is. -/
theorem new (h : KeepsFirst sections moves earlier)
    (hp : resolve (declaredIn sections) ⟨p.state⟩ p.line.value = .ok entry) (hg : moves.get? entry.1 = none) :
    KeepsFirst sections (moves.insert entry.1 ⟨entry.2, p.line.span⟩) (earlier ++ [p]) := by
  intro q entry' hq
  have hkept := h q entry' hq
  rw [firstAlike_concat, Table.get?_insert]
  by_cases horigin : p.origin = q.origin
  · have hsituation := (situation_eq_iff_origin hp hq).mpr horigin
    rw [← hsituation, hg, Option.map_none, eq_comm, Option.map_eq_none_iff] at hkept
    rw [if_pos hsituation, hkept, if_pos ⟨nameFaults_of_ok hp, horigin⟩]
    rfl
  · rw [if_neg (mt (situation_eq_iff_origin hp hq).mp horigin), if_neg fun hlike => horigin hlike.2, Option.or_none]
    exact hkept

end KeepsFirst

/-- What is found in transitions of one state, one after the other, and what the table then
    holds. -/
theorem checkTransitions_finds (state : String) (lines : List (Located TransitionLine))
    (h : KeepsFirst sections moves earlier) :
    (checkTransitions (declaredIn sections) ⟨state⟩ moves lines).findings =
        ((withEarlier earlier (lines.map (Departure.mk state))).flatMap fun (earlier, p) =>
          transitionFindings sections earlier p) ∧
      KeepsFirst sections (checkTransitions (declaredIn sections) ⟨state⟩ moves lines).value
        (earlier ++ lines.map (Departure.mk state)) := by
  induction lines generalizing moves earlier with
  | nil =>
    rw [List.map_nil, List.append_nil]
    exact ⟨rfl, h⟩
  | cons line rest ih =>
    have hsplit : earlier ++ (line :: rest).map (Departure.mk state) =
        (earlier ++ [Departure.mk state line]) ++ rest.map (Departure.mk state) := by simp
    rw [hsplit]
    unfold checkTransitions
    rw [List.map_cons, withEarlier, List.flatMap_cons]
    cases hr : resolve (declaredIn sections) ⟨state⟩ line.value with
    | error faults =>
      have hfaults := nameFaults_of_error hr
      have hne : nameFaults sections line.value ≠ [] := hfaults ▸ ne_nil_of_resolve hr
      obtain ⟨hlater, hmoves⟩ := ih (h.faulty (p := ⟨state, line⟩) hne)
      have hhere : transitionFindings sections earlier ⟨state, line⟩ = faults := by
        rw [transitionFindings, if_neg hne, List.append_nil, hfaults]
      refine ⟨?_, hmoves⟩
      simp only [hlater, hhere]
    | ok entry =>
      have hfine := nameFaults_of_ok hr
      have hkept := h ⟨state, line⟩ entry hr
      have hhere : transitionFindings sections earlier ⟨state, line⟩ =
          ((moves.get? entry.1).map Located.span).toList.map fun s =>
            (Problem.transitionRepeated s).here line.span := by
        rw [transitionFindings, if_pos hfine, hfine, hkept]
        cases firstAlike sections earlier ⟨state, line⟩ <;> rfl
      simp only [hhere]
      cases hg : moves.get? entry.1 with
      | some previous =>
        obtain ⟨hlater, hmoves⟩ := ih (h.repeated (p := ⟨state, line⟩) hr hg)
        refine ⟨?_, hmoves⟩
        simp only [hlater]
        rfl
      | none =>
        obtain ⟨hlater, hmoves⟩ := ih (h.new (p := ⟨state, line⟩) hr hg)
        refine ⟨?_, hmoves⟩
        simp only [hlater]
        rfl

theorem checkedDepartures_concat (before : List (Located StateGroup)) (g : Located StateGroup) :
    checkedDepartures sections (before ++ [g]) =
      checkedDepartures sections before ++
        if DeclaresState sections g.value.state.value then g.value.departures else [] := by
  rw [checkedDepartures, List.flatMap_append, List.flatMap_singleton, checkedDepartures]

theorem checkGroups_finds (before groups : List (Located StateGroup))
    (h : KeepsFirst sections moves (checkedDepartures sections before)) :
    (checkGroups (declaredIn sections) moves groups).findings =
      (withEarlier before groups).flatMap fun (before, g) => groupFindings sections before g.value := by
  induction groups generalizing moves before with
  | nil => rfl
  | cons g rest ih =>
    have hbefore := @checkedDepartures_concat sections before g
    rw [checkGroups, withEarlier, List.flatMap_cons, state_eq]
    simp only [groupFindings]
    by_cases hstate : DeclaresState sections g.value.state.value
    · obtain ⟨hhere, hmoves⟩ := checkTransitions_finds g.value.state.value g.value.transitions h
      rw [if_pos hstate] at hbefore
      have hlater := ih (before ++ [g]) (hbefore ▸ hmoves)
      simp only [if_pos hstate, hhere, hlater]
      rfl
    · rw [if_neg hstate, List.append_nil] at hbefore
      have hlater := ih (before ++ [g]) (hbefore ▸ h)
      simp only [if_neg hstate, hlater]
      rfl

end Moves

/-! ## All sections -/

namespace Section

variable (s : Section)

@[simp] theorem label_emptied : s.emptied.label = s.label := by cases s <;> rfl

@[simp] theorem kind?_emptied : s.emptied.kind? = s.kind? := by cases s <;> rfl

@[simp] theorem names?_emptied (kind : SectionKind) : s.emptied.names? kind = s.names? kind := by cases s <;> rfl

@[simp] theorem groups?_emptied : s.emptied.groups? = s.groups?.map fun _ => [] := by cases s <;> rfl

end Section

section Sections

variable {sections : List (Located Section)}

theorem checkLabels_withoutTransitions (seen : List SectionKind) (sections : List (Located Section)) :
    checkLabels seen (withoutTransitions sections) = checkLabels seen sections := by
  induction sections generalizing seen with
  | nil => rfl
  | cons s rest ih =>
    unfold withoutTransitions at ih ⊢
    rw [List.map_cons, checkLabels, checkLabels]
    simp only [Section.label_emptied, Section.kind?_emptied, ih]

theorem lastNames_withoutTransitions (kind : SectionKind) (sections : List (Located Section)) :
    lastNames kind (withoutTransitions sections) = lastNames kind sections := by
  simp only [lastNames, withoutTransitions, List.filterMap_map, Function.comp_def, Section.names?_emptied]

theorem lastGroups_withoutTransitions (sections : List (Located Section)) :
    lastGroups (withoutTransitions sections) = (lastGroups sections).map fun _ => [] := by
  rw [lastGroups, lastGroups, withoutTransitions, List.filterMap_map, ← List.getLast?_map, List.map_filterMap]
  simp only [Function.comp_def, Section.groups?_emptied]

/-- The check of a block comes last, and nothing before it depends on what it finds. -/
theorem findings_checkSections {groups : List (Located StateGroup)} (h : lastGroups sections = some groups) :
    (checkSections sections).findings =
      (checkSections (withoutTransitions sections)).findings ++
        (checkGroups (declaredIn sections) ∅ groups).findings := by
  have hempty : lastGroups (withoutTransitions sections) = some [] := by rw [lastGroups_withoutTransitions, h]; rfl
  simp only [checkSections, checkLabels_withoutTransitions, lastNames_withoutTransitions, hempty, h, checkMoves,
    checkGroups, List.append_nil, declaredIn]

end Sections

/-! ## Which problems transitions have -/

/-- The problems of transitions. -/
def Problem.OfTransitions : Problem → Prop
  | .transitionStateUndeclared | .transitionLetterUndeclared | .transitionLetterTooLong | .inputEndOnStack => True
  | .transitionSymbolUndeclared _ | .stackEndMisplaced | .transitionRepeated _ => True
  | _ => False

/-- All of them are errors. -/
theorem Problem.OfTransitions.severity_eq {p : Problem} (h : p.OfTransitions) : p.severity = .error := by
  cases p <;> first | rfl | exact h.elim

section Problems

variable {sections : List (Located Section)}

theorem letterProblem_ofTransitions (name : String) : (letterProblem name).OfTransitions := by
  unfold letterProblem
  split <;> trivial

theorem symbolProblem_ofTransitions (name : String) : (symbolProblem sections name).OfTransitions := by
  unfold symbolProblem
  split <;> trivial

theorem pushProblem_ofTransitions (name : String) : (pushProblem sections name).OfTransitions := by
  unfold pushProblem
  split
  · trivial
  · exact symbolProblem_ofTransitions name

theorem ofTransitions_of_mem_problemIf {faulty : Prop} [Decidable faulty] {p : Problem} {place : Span}
    (hp : p.OfTransitions) : ∀ f ∈ problemIf faulty p place, f.problem.OfTransitions := by
  intro f hf
  unfold problemIf at hf
  split at hf
  · exact List.mem_singleton.mp hf ▸ hp
  · cases hf

theorem ofTransitions_of_mem_nameFaults {t : TransitionLine} :
    ∀ f ∈ nameFaults sections t, f.problem.OfTransitions := by
  simp only [nameFaults, List.forall_mem_append]
  refine ⟨⟨⟨?_, ?_⟩, ?_⟩, ?_⟩
  · exact ofTransitions_of_mem_problemIf (letterProblem_ofTransitions _)
  · exact ofTransitions_of_mem_problemIf (symbolProblem_ofTransitions _)
  · exact ofTransitions_of_mem_problemIf (by trivial)
  · intro f hf
    obtain ⟨⟨name, i⟩, -, hf⟩ := List.mem_flatMap.mp hf
    exact ofTransitions_of_mem_problemIf (pushProblem_ofTransitions _) f hf

theorem ofTransitions_of_mem_transitionFindings {earlier : List Departure} {p : Departure} :
    ∀ f ∈ transitionFindings sections earlier p, f.problem.OfTransitions := by
  intro f hf
  rcases List.mem_append.mp hf with hf | hf
  · exact ofTransitions_of_mem_nameFaults f hf
  · split at hf
    · obtain ⟨e, -, rfl⟩ := List.mem_map.mp hf
      trivial
    · cases hf

theorem ofTransitions_of_mem_blockFindings {groups : List (Located StateGroup)} :
    ∀ f ∈ blockFindings sections groups, f.problem.OfTransitions := by
  intro f hf
  obtain ⟨⟨before, g⟩, -, hf⟩ := List.mem_flatMap.mp hf
  simp only [groupFindings] at hf
  split at hf
  · obtain ⟨⟨earlier, p⟩, -, hf⟩ := List.mem_flatMap.mp hf
    exact ofTransitions_of_mem_transitionFindings f hf
  · obtain rfl := List.mem_singleton.mp hf
    trivial

end Problems

/-- Whatever is wrong with some sections, what is found in their last block of transitions
    is found, after what would be found without any transitions; and it is all errors. -/
theorem transitions_diagnosed (sections : List (Located Section)) (groups : List (Located StateGroup))
    (h : (blocksOf sections).getLast? = some groups) :
    (Definition.ofSections sections).report.entries.toList =
        (Definition.ofSections (withoutTransitions sections)).report.entries.toList ++
          (blockFindings sections groups).map Finding.entry ∧
      ∀ f ∈ blockFindings sections groups, f.isError = true := by
  refine ⟨?_, fun f hf => beq_iff_eq.mpr (ofTransitions_of_mem_blockFindings f hf).severity_eq⟩
  have hfinds := @findings_checkSections sections _ h
  rw [checkGroups_finds [] groups (KeepsFirst.start sections)] at hfinds
  simp only [Definition.report, Definition.ofSections, Definition.ofReading_eq, List.nil_append,
    Report.toList_entries_ofFindings]
  rw [hfinds, List.map_append]
  rfl

/-- A state, a letter and no stack symbols; a state over transitions that is not declared,
    and one that stands over two groups. -/
def tangled : List (Located Section) :=
  [⟨.list ⟨"states", ⟨0, 6⟩⟩ ⟨[⟨"q", ⟨8, 9⟩⟩], ⟨8, 9⟩⟩, ⟨0, 9⟩⟩,
    ⟨.list ⟨"alphabet", ⟨10, 18⟩⟩ ⟨[⟨"a", ⟨20, 21⟩⟩], ⟨20, 21⟩⟩, ⟨10, 21⟩⟩,
    ⟨.transitions ⟨"transition_function", ⟨22, 41⟩⟩ [
      ⟨⟨⟨"q", ⟨43, 44⟩⟩, [
          ⟨⟨⟨"a", ⟨47, 48⟩⟩, ⟨"a", ⟨50, 51⟩⟩, ⟨"q", ⟨56, 57⟩⟩, ⟨[⟨"a", ⟨59, 60⟩⟩, ⟨"STACK_END", ⟨62, 71⟩⟩], ⟨58, 72⟩⟩⟩,
            ⟨46, 72⟩⟩,
          ⟨⟨⟨"a", ⟨74, 75⟩⟩, ⟨"a", ⟨77, 78⟩⟩, ⟨"q", ⟨83, 84⟩⟩, ⟨[], ⟨85, 87⟩⟩⟩, ⟨73, 87⟩⟩]⟩, ⟨43, 87⟩⟩,
      ⟨⟨⟨"r", ⟨88, 89⟩⟩, [
          ⟨⟨⟨"b", ⟨92, 93⟩⟩, ⟨"b", ⟨95, 96⟩⟩, ⟨"r", ⟨101, 102⟩⟩, ⟨[], ⟨103, 105⟩⟩⟩, ⟨91, 105⟩⟩]⟩, ⟨88, 105⟩⟩,
      ⟨⟨⟨"q", ⟨106, 107⟩⟩, [
          ⟨⟨⟨"a", ⟨110, 111⟩⟩, ⟨"a", ⟨113, 114⟩⟩, ⟨"q", ⟨119, 120⟩⟩, ⟨[], ⟨121, 123⟩⟩⟩, ⟨109, 123⟩⟩,
          ⟨⟨⟨"bb", ⟨125, 127⟩⟩, ⟨"INPUT_END", ⟨129, 138⟩⟩, ⟨"r", ⟨143, 144⟩⟩, ⟨[⟨"b", ⟨146, 147⟩⟩], ⟨145, 148⟩⟩⟩,
            ⟨124, 148⟩⟩]⟩, ⟨106, 148⟩⟩], ⟨22, 148⟩⟩]

/-- A transition that repeats a faulty one and a sound one is said to repeat the sound one;
    all the faults of the last transition are told. -/
theorem tangled_diagnosed :
    (blocksOf tangled).getLast? = some ((blocksOf tangled).flatten) ∧
      (Definition.ofSections tangled).report.entries.toList =
        (Definition.ofSections (withoutTransitions tangled)).report.entries.toList ++
          [Problem.stackEndMisplaced.here ⟨62, 71⟩, Problem.transitionStateUndeclared.here ⟨88, 89⟩,
            (Problem.transitionRepeated ⟨73, 87⟩).here ⟨109, 123⟩, Problem.transitionLetterTooLong.here ⟨125, 127⟩,
            Problem.inputEndOnStack.here ⟨129, 138⟩, Problem.transitionStateUndeclared.here ⟨143, 144⟩,
            (Problem.transitionSymbolUndeclared false).here ⟨146, 147⟩].map Finding.entry := by
  have hlast : (blocksOf tangled).getLast? = some ((blocksOf tangled).flatten) := by decide
  refine ⟨hlast, ?_⟩
  rw [(transitions_diagnosed tangled _ hlast).1]
  refine congrArg (_ ++ List.map Finding.entry ·) ?_
  decide

end Pushdown
