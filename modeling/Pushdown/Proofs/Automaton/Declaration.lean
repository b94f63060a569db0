/-
  Pushdown.Proofs.Automaton.Declaration — what the checks of labels and lists take.

  Each lemma reads the success of one check, no finding being an error, as the clause it
  decides, and gives the table it builds. One lemma about `declare` serves all the lists.
-/

import Pushdown.Automaton.Check
import Pushdown.Proofs.Automaton.Outline
import Pushdown.Proofs.Report
import Pushdown.Proofs.Table
import Pushdown.Proofs.Vocabulary

namespace Pushdown

/-- Nothing found is an error. -/
def Clean (findings : List Finding) : Prop := ∀ f ∈ findings, f.isError = false

@[simp] theorem clean_nil : Clean [] := by simp [Clean]

@[simp] theorem clean_cons {f : Finding} {findings : List Finding} :
    Clean (f :: findings) ↔ f.isError = false ∧ Clean findings := by simp [Clean]

@[simp] theorem clean_append {before after : List Finding} :
    Clean (before ++ after) ↔ Clean before ∧ Clean after := by
  simp only [Clean, List.mem_append]
  refine ⟨?_, ?_⟩
  · intro h
    exact ⟨fun f hf => h f (Or.inl hf), fun f hf => h f (Or.inr hf)⟩
  · intro h f hf
    rcases hf with hf | hf
    · exact h.1 f hf
    · exact h.2 f hf

theorem any_isError_eq_false {findings : List Finding} :
    findings.any Finding.isError = false ↔ Clean findings := by
  simp [Clean]

@[simp] theorem isError_here (p : Problem) (place : Span) :
    (p.here place).isError = (p.severity == .error) := rfl

@[simp] theorem isError_nowhere (p : Problem) : p.nowhere.isError = (p.severity == .error) := rfl

/-! ## Labels -/

theorem ofListLabel?_eq_some {label : String} {kind : SectionKind} :
    SectionKind.ofListLabel? label = some kind ↔ kind ≠ .transitionFunction ∧ label = kind.label := by
  unfold SectionKind.ofListLabel? SectionKind.all
  refine ⟨?_, ?_⟩
  · intro h
    have := List.find?_some h
    simp only [Bool.and_eq_true, bne_iff_ne, beq_iff_eq] at this
    exact ⟨this.1, this.2.symm⟩
  · intro h
    obtain ⟨hk, rfl⟩ := h
    cases kind <;> first | rfl | exact absurd rfl hk

/-- How many sections are of a kind. -/
def countKind (kind : SectionKind) (sections : List (Located Section)) : Nat :=
  sections.countP fun s => s.value.kind? = some kind

theorem checkLabels_clean {seen : List SectionKind} {sections : List (Located Section)} :
    Clean (checkLabels seen sections) ↔
      (∀ s ∈ sections, s.value.kind? ≠ none) ∧
        ∀ kind, countKind kind sections ≤ if kind ∈ seen then 0 else 1 := by
  induction sections generalizing seen with
  | nil => simp [checkLabels, countKind]
  | cons s rest ih =>
    unfold checkLabels
    cases hk : s.value.kind? with
    | none => simp [Problem.severity, hk]
    | some kind =>
      simp only
      have hcount : ∀ other, countKind other (s :: rest) =
          countKind other rest + if other = kind then 1 else 0 := by
        intro other
        simp [countKind, List.countP_cons, hk, eq_comm]
      split
      · next hseen =>
        -- a kind seen before: an error here, and a section too many
        simp only [clean_cons, isError_here, Problem.severity, beq_self_eq_true, Bool.true_eq_false, false_and,
          false_iff, not_and]
        intro _ h
        have := h kind
        rw [hcount, if_pos hseen, if_pos rfl] at this
        omega
      · next hseen =>
        rw [ih]
        simp only [List.mem_cons, forall_eq_or_imp, hk, ne_eq, reduceCtorEq, not_false_eq_true, true_and]
        refine and_congr_right fun _ => forall_congr' fun other => ?_
        rw [hcount]
        by_cases ho : other = kind
        · subst ho
          simp [hseen]
        · simp [ho]

theorem names?_eq_listsUnder {kind : SectionKind} (hk : kind ≠ .transitionFunction)
    (sections : List (Located Section)) :
    (sections.filterMap fun s => s.value.names? kind) = listsUnder kind.label sections := by
  unfold listsUnder
  congr
  funext s
  cases s.value with
  | list label items => simp [Section.names?, ofListLabel?_eq_some, hk]
  | transitions _ _ => rfl

theorem length_listsUnder {kind : SectionKind} (hk : kind ≠ .transitionFunction)
    (sections : List (Located Section)) :
    (listsUnder kind.label sections).length = countKind kind sections := by
  rw [← names?_eq_listsUnder hk, List.length_filterMap_eq_countP]
  unfold countKind
  congr
  funext s
  cases s.value with
  | list label items =>
    simp only [Section.names?, Section.kind?]
    split <;> simp [*]
  | transitions _ _ => simp [Section.names?, Section.kind?, Ne.symm hk]

theorem length_blocksOf (sections : List (Located Section)) :
    (blocksOf sections).length = countKind .transitionFunction sections := by
  unfold blocksOf countKind
  rw [List.length_filterMap_eq_countP]
  congr
  funext s
  cases s.value with
  | list label items => simp [Section.groups?, Section.kind?, ofListLabel?_eq_some]
  | transitions _ _ => simp [Section.groups?, Section.kind?]

theorem kind?_ne_none {s : Section} :
    s.kind? ≠ none ↔ ∀ label items, s = .list label items → label.value ∈
      ["states", "alphabet", "stack_alphabet", "initial_state", "final_states", "rejecting_states"] := by
  cases s with
  | list label items =>
    simp only [Section.kind?, Option.ne_none_iff_exists', ofListLabel?_eq_some, Section.list.injEq]
    refine ⟨?_, ?_⟩
    · intro h _ _ e
      obtain ⟨kind, hk, hl⟩ := h
      rw [← e.1, hl]
      cases kind with
      | transitionFunction => exact absurd rfl hk
      | _ => simp [SectionKind.label]
    · intro h
      have := h label items ⟨rfl, rfl⟩
      simp only [List.mem_cons, List.not_mem_nil, or_false] at this
      rcases this with h | h | h | h | h | h
      · exact ⟨.states, by simp, h⟩
      · exact ⟨.alphabet, by simp, h⟩
      · exact ⟨.stackAlphabet, by simp, h⟩
      · exact ⟨.initialState, by simp, h⟩
      · exact ⟨.finalStates, by simp, h⟩
      · exact ⟨.rejectingStates, by simp, h⟩
  | transitions _ _ => simp [Section.kind?]

/-! ## Names declared in order -/

/-- A name has the key that is written as it, or is refused with an error. -/
structure Accepts {κ : Type} (accept : String → Except Problem κ) (text : κ → String) : Prop where
  text_inj : ∀ k k', text k = text k' → k = k'
  outcome : ∀ name, (∃ key, accept name = .ok key ∧ text key = name) ∨
    ∃ p, accept name = .error p ∧ p.severity = .error

namespace Accepts

variable {κ : Type} {accept : String → Except Problem κ} {text : κ → String}

theorem text_eq (ha : Accepts accept text) {name : String} {key : κ} (h : accept name = .ok key) :
    text key = name := by
  rcases ha.outcome name with ⟨k, hk, e⟩ | ⟨p, hp, -⟩
  · cases hk.symm.trans h
    exact e
  · cases hp.symm.trans h

theorem severity_eq (ha : Accepts accept text) {name : String} {p : Problem} (h : accept name = .error p) :
    p.severity = .error := by
  rcases ha.outcome name with ⟨k, hk, -⟩ | ⟨q, hq, e⟩
  · cases hk.symm.trans h
  · cases hq.symm.trans h
    exact e

end Accepts

section Declare

variable {κ : Type} {accept : String → Except Problem κ} {text : κ → String} {repeated : Problem}

@[simp] theorem idents_empty : (∅ : Table κ Span).idents text = [] := rfl

theorem namesIn_idents (t : Table κ Span) : namesIn (t.idents text) = t.keys.map text := by
  simp [namesIn, Table.idents, Table.keys, Function.comp_def]

theorem mem_names_iff (ha : Accepts accept text) {t : Table κ Span} {key : κ} :
    text key ∈ namesIn (t.idents text) ↔ key ∈ t.keys := by
  rw [namesIn_idents, List.mem_map]
  refine ⟨?_, ?_⟩
  · intro h
    obtain ⟨k, hk, e⟩ := h
    exact ha.text_inj _ _ e ▸ hk
  · intro h
    exact ⟨key, h, rfl⟩

theorem names_nodup (ha : Accepts accept text) (t : Table κ Span) : (namesIn (t.idents text)).Nodup := by
  rw [namesIn_idents]
  exact Table.nodup_map_keys ha.text_inj t

/-- A table is known by its names and their places. -/
theorem idents_inj (ha : Accepts accept text) {t u : Table κ Span} (h : t.idents text = u.idents text) : t = u := by
  refine Table.ext_entries (List.map_inj_right ?_ |>.mp h)
  intro entry entry' e
  simp only [Located.mk.injEq] at e
  exact Prod.ext (ha.text_inj _ _ e.1) e.2

variable [DecidableEq κ]

theorem idents_insert {t : Table κ Span} {key : κ} (h : key ∉ t.keys) (place : Span) :
    (t.insert key place).idents text = t.idents text ++ [⟨text key, place⟩] := by
  simp [Table.idents, Table.entries_insert h]

/-- Names are declared without an error when each has a key and none stands twice. -/
theorem declare_clean (ha : Accepts accept text) (hr : repeated.severity = .error) {t : Table κ Span}
    {names : List Ident} :
    Clean (declare accept repeated t names).findings ↔
      (∀ name ∈ namesIn names, ∃ key, accept name = .ok key) ∧
        (namesIn (t.idents text) ++ namesIn names).Nodup := by
  induction names generalizing t with
  | nil => simpa [declare, namesIn] using names_nodup ha t
  | cons name rest ih =>
    unfold declare
    cases hk : accept name.value with
    | error p => simp [namesIn, hk, ha.severity_eq hk]
    | ok key =>
      have htext := ha.text_eq hk
      have hall : (∀ n ∈ namesIn (name :: rest), ∃ key, accept n = .ok key) ↔
          ∀ n ∈ namesIn rest, ∃ key, accept n = .ok key := by
        simp [namesIn, hk]
      rw [hall]
      simp only
      by_cases hc : key ∈ t.keys
      · -- the name stands before already
        have hm : name.value ∈ namesIn (t.idents text) := htext ▸ (mem_names_iff ha).mpr hc
        rw [if_pos (Table.contains_eq_true.mpr hc)]
        refine ⟨?_, ?_⟩
        · intro h
          simp [hr] at h
        · intro h
          obtain ⟨-, hn⟩ := h
          exact absurd rfl ((List.nodup_append.mp hn).2.2 _ hm _ List.mem_cons_self)
      · have hsplit : namesIn ((t.insert key name.span).idents text) ++ namesIn rest =
            namesIn (t.idents text) ++ namesIn (name :: rest) := by
          rw [idents_insert hc, htext]
          simp [namesIn]
        rw [if_neg (by simpa using hc), ih, hsplit]

/-- The table then gets the names at its end, in their order, with their places. -/
theorem idents_declare (ha : Accepts accept text) (hr : repeated.severity = .error) {t : Table κ Span}
    {names : List Ident} (h : Clean (declare accept repeated t names).findings) :
    (declare accept repeated t names).value.idents text = t.idents text ++ names := by
  induction names generalizing t with
  | nil => simp [declare]
  | cons name rest ih =>
    unfold declare at h ⊢
    cases hk : accept name.value with
    | error p => simp [hk, ha.severity_eq hk] at h
    | ok key =>
      simp only [hk] at h ⊢
      by_cases hc : key ∈ t.keys
      · simp [Table.contains_eq_true.mpr hc, hr] at h
      · rw [if_neg (by simpa using hc)] at h
        rw [ih h, idents_insert hc, ha.text_eq hk]
        simp

/-- Whatever is wrong with them, the names that are accepted have their keys in the table,
    and no others. -/
theorem mem_keys_declare {t : Table κ Span} {names : List Ident} {key : κ} :
    key ∈ (declare accept repeated t names).value.keys ↔
      key ∈ t.keys ∨ ∃ name ∈ names, accept name.value = .ok key := by
  induction names generalizing t with
  | nil => simp [declare]
  | cons name rest ih =>
    unfold declare
    cases hk : accept name.value with
    | error p => simp [ih, hk]
    | ok first =>
      simp only [ih, Table.mem_keys_insert, List.mem_cons, exists_eq_or_imp, hk, Except.ok.injEq]
      rw [or_assoc, or_left_comm, @eq_comm _ key first]

theorem mem_names_declare (ha : Accepts accept text) {names : List Ident} {name : String} :
    name ∈ namesIn ((declare accept repeated ∅ names).value.idents text) ↔
      name ∈ namesIn names ∧ ∃ key, accept name = .ok key := by
  rw [namesIn_idents, namesIn, List.mem_map, List.mem_map]
  simp only [mem_keys_declare, Table.keys_empty, List.not_mem_nil, false_or]
  refine ⟨?_, ?_⟩
  · intro h
    obtain ⟨key, ⟨i, hi, hk⟩, htext⟩ := h
    obtain rfl : i.value = name := (ha.text_eq hk).symm.trans htext
    exact ⟨⟨i, hi, rfl⟩, key, hk⟩
  · intro h
    obtain ⟨⟨i, hi, rfl⟩, key, hk⟩ := h
    exact ⟨key, ⟨i, hi, hk⟩, ha.text_eq hk⟩

/-- A list that must be there and hold a name. -/
theorem declareSome_clean (ha : Accepts accept text) (hr : repeated.severity = .error) {missing empty : Problem}
    (hm : missing.severity = .error) (he : empty.severity = .error) {names? : Option (Located (List Ident))} :
    Clean (declareSome accept repeated missing empty names?).findings ↔
      ∃ names, names? = some names ∧ namesIn names.value ≠ [] ∧
        (∀ name ∈ namesIn names.value, ∃ key, accept name = .ok key) ∧ (namesIn names.value).Nodup := by
  cases names? with
  | none => simp [declareSome, hm]
  | some names =>
    have hempty : Clean (if names.value.isEmpty then [empty.here names.span] else []) ↔
        namesIn names.value ≠ [] := by
      cases names.value <;> simp [namesIn, he]
    simp only [declareSome, clean_append, declare_clean ha hr, hempty, Option.some.injEq, exists_eq_left', idents_empty]
    exact ⟨fun h => ⟨h.2, h.1⟩, fun h => ⟨h.2, h.1⟩⟩

theorem idents_declareSome (ha : Accepts accept text) (hr : repeated.severity = .error) {missing empty : Problem}
    (hm : missing.severity = .error) {names? : Option (Located (List Ident))}
    (h : Clean (declareSome accept repeated missing empty names?).findings) :
    (declareSome accept repeated missing empty names?).value.idents text = (names?.map Located.value).getD [] := by
  cases names? with
  | none => simp [declareSome, hm] at h
  | some names =>
    rw [declareSome, clean_append] at h
    exact (idents_declare ha hr h.1).trans (List.nil_append _)

end Declare

/-! ## The lists of a definition -/

theorem isReserved_eq_false {name : String} :
    isReserved name = false ↔ name ≠ "STACK_END" ∧ name ≠ "INPUT_END" := by
  simp [isReserved, stackEnd, inputEnd]

theorem accepts_state : Accepts acceptState State.name where
  text_inj k k' h := by
    cases k
    exact congrArg _ h
  outcome name := by
    unfold acceptState
    split
    · exact Or.inr ⟨_, rfl, rfl⟩
    · exact Or.inl ⟨_, rfl, rfl⟩

theorem acceptState_ok {name : String} :
    (∃ key, acceptState name = .ok key) ↔ name ≠ "STACK_END" ∧ name ≠ "INPUT_END" := by
  rw [← isReserved_eq_false]
  unfold acceptState
  split <;> simp [*]

theorem accepts_symbol : Accepts acceptSymbol Symbol.name where
  text_inj k k' h := by
    cases k
    exact congrArg _ h
  outcome name := by
    unfold acceptSymbol
    split
    · exact Or.inr ⟨_, rfl, rfl⟩
    · exact Or.inl ⟨_, rfl, rfl⟩

theorem acceptSymbol_ok {name : String} :
    (∃ key, acceptSymbol name = .ok key) ↔ name ≠ "STACK_END" ∧ name ≠ "INPUT_END" := by
  rw [← isReserved_eq_false]
  unfold acceptSymbol
  split <;> simp [*]

theorem accepts_letter : Accepts acceptLetter Letter.text where
  text_inj l l' h := Letter.text_inj h
  outcome name := by
    unfold acceptLetter
    cases hl : Letter.ofText? name with
    | some l => exact Or.inl ⟨l, rfl, Letter.text_of_ofText? hl⟩
    | none =>
      refine Or.inr ⟨_, rfl, ?_⟩
      split <;> rfl

theorem acceptLetter_ok {name : String} :
    (∃ key, acceptLetter name = .ok key) ↔ name = "INPUT_END" ∨ name.length = 1 := by
  rw [← Letter.ofText?_isSome]
  unfold acceptLetter
  cases Letter.ofText? name <;> simp

theorem contains_state {states : Table State Span} {name : String} :
    states.contains ⟨name⟩ = true ↔ name ∈ namesIn (states.idents State.name) := by
  rw [Table.contains_eq_true]
  exact (@mem_names_iff _ _ _ accepts_state _ ⟨name⟩).symm

theorem accepts_halting (kind : Halting) (states : Table State Span) :
    Accepts (acceptHalting kind states) State.name where
  text_inj := accepts_state.text_inj
  outcome name := by
    unfold acceptHalting
    split
    · exact Or.inl ⟨_, rfl, rfl⟩
    · exact Or.inr ⟨_, rfl, rfl⟩

theorem acceptHalting_ok {kind : Halting} {states : Table State Span} {name : String} :
    (∃ key, acceptHalting kind states name = .ok key) ↔ name ∈ namesIn (states.idents State.name) := by
  rw [← contains_state]
  unfold acceptHalting
  split <;> simp [*]

/-- Names are refused for what they say, not for where another one stands. -/
def RefusesPlainly {κ : Type} (accept : String → Except Problem κ) : Prop :=
  ∀ name p, accept name = .error p → p.Plain

theorem refusesPlainly_state : RefusesPlainly acceptState := by
  intro name p h
  unfold acceptState at h
  split at h
  · cases h
    trivial
  · cases h

theorem refusesPlainly_letter : RefusesPlainly acceptLetter := by
  intro name p h
  unfold acceptLetter at h
  split at h
  · cases h
  · cases h
    split <;> trivial

theorem refusesPlainly_symbol : RefusesPlainly acceptSymbol := by
  intro name p h
  unfold acceptSymbol at h
  split at h
  · cases h
    trivial
  · cases h

theorem refusesPlainly_halting (kind : Halting) (states : Table State Span) :
    RefusesPlainly (acceptHalting kind states) := by
  intro name p h
  unfold acceptHalting at h
  split at h
  · cases h
  · cases h
    trivial

section Checks

variable {names? : Option (Located (List Ident))} {states : Table State Span}

theorem checkStates_clean :
    Clean (checkStates names?).findings ↔
      ∃ names, names? = some names ∧ namesIn names.value ≠ [] ∧
        (∀ q ∈ namesIn names.value, q ≠ "STACK_END" ∧ q ≠ "INPUT_END") ∧ (namesIn names.value).Nodup := by
  rw [checkStates, declareSome_clean accepts_state rfl rfl rfl]
  simp only [acceptState_ok]

theorem checkAlphabet_clean :
    Clean (checkAlphabet names?).findings ↔
      ∃ names, names? = some names ∧ namesIn names.value ≠ [] ∧
        (∀ l ∈ namesIn names.value, l = "INPUT_END" ∨ l.length = 1) ∧ (namesIn names.value).Nodup := by
  rw [checkAlphabet, declareSome_clean accepts_letter rfl rfl rfl]
  simp only [acceptLetter_ok]

theorem checkStackAlphabet_clean :
    Clean (checkStackAlphabet names?).findings ↔
      ∀ names, names? = some names →
        (∀ s ∈ namesIn names.value, s ≠ "STACK_END" ∧ s ≠ "INPUT_END") ∧ (namesIn names.value).Nodup := by
  cases names? with
  | none => simp [checkStackAlphabet]
  | some names =>
    simp only [checkStackAlphabet, Option.some.injEq, forall_eq']
    rw [declare_clean accepts_symbol rfl]
    simp only [acceptSymbol_ok, idents_empty]
    rfl

theorem idents_checkStackAlphabet (h : Clean (checkStackAlphabet names?).findings) :
    (checkStackAlphabet names?).value.map (Table.idents Symbol.name) = names?.map Located.value := by
  cases names? with
  | none => rfl
  | some names => exact congrArg some (idents_declare accepts_symbol rfl h)

theorem checkInitial_clean :
    Clean (checkInitial states names?).findings ↔
      ∃ names q, names? = some names ∧ namesIn names.value = [q] ∧ q ∈ namesIn (states.idents State.name) := by
  unfold checkInitial
  split
  · simp [Problem.severity]
  · next name place =>
    split
    · next h => simpa [namesIn] using contains_state.mp h
    · next h => simpa [Problem.severity, namesIn] using fun hm => h (contains_state.mpr hm)
  · next items place hne =>
    refine iff_of_false (by simp [Problem.severity]) ?_
    intro h
    obtain ⟨names, q, ⟨⟩, hq, -⟩ := h
    obtain ⟨name, hname, -⟩ := List.map_eq_singleton_iff.mp hq
    exact hne name hname

theorem checkInitial_value {q : String} (h : Clean (checkInitial states names?).findings)
    (hq : namesIn ((names?.map Located.value).getD []) = [q]) : (checkInitial states names?).value = some ⟨q⟩ := by
  unfold checkInitial at h ⊢
  split at h
  · cases hq
  · next name place =>
    obtain rfl : name.value = q := by simpa [namesIn] using hq
    split at h
    · next hc => simp [hc]
    · simp [Problem.severity] at h
  · simp [Problem.severity] at h

theorem checkHalting_clean {kind : Halting} {missing : Problem} :
    Clean (checkHalting kind missing states names?).findings ↔
      (names? = none → missing.severity ≠ .error) ∧ ∀ names, names? = some names →
        (∀ q ∈ namesIn names.value, q ∈ namesIn (states.idents State.name)) ∧ (namesIn names.value).Nodup := by
  cases names? with
  | none => simp [checkHalting]
  | some names =>
    simp only [checkHalting, reduceCtorEq, false_implies, true_and, Option.some.injEq, forall_eq']
    rw [declare_clean (accepts_halting kind states) rfl]
    simp only [acceptHalting_ok, idents_empty]
    rfl

theorem idents_checkHalting {kind : Halting} {missing : Problem}
    (h : Clean (checkHalting kind missing states names?).findings) :
    (checkHalting kind missing states names?).value.idents State.name = (names?.map Located.value).getD [] := by
  cases names? with
  | none => rfl
  | some names => exact idents_declare (accepts_halting kind states) rfl h

theorem checkOverlap_clean (final rejecting : Table State Span) : Clean (checkOverlap final rejecting) := by
  intro f hf
  obtain ⟨entry, -, rfl⟩ := List.mem_map.mp hf
  rfl

end Checks

end Pushdown
