/-
  Pushdown.Proofs.Automaton.Reload — which automata can be written down.

  Sections that no text holds may build an automaton with names that no text can spell, and
  its canonical form then says something else or nothing at all. `load_canonical_iff` draws
  the line: the canonical form loads to the same automaton exactly when every declared name
  is lexable and no state with a move begins with `#`. What is loaded has words for names
  and no header that opens a comment (`Spelled`), so an automaton that is loaded again with
  its own names has them too (`Restates.spelled`).
-/

import Pushdown.Proofs.Automaton.RoundTrip

namespace Pushdown

/-- The names that an automaton declares: its states, letters and stack symbols. -/
def Automaton.names (a : Automaton) : List String :=
  a.states.keys.map State.name ++ a.alphabet.keys.map Letter.text ++
    (a.stackAlphabet.map fun symbols => symbols.keys.map Symbol.name).getD []

/-- One automaton has the names of another, in the same order, its initial state and its
    moves. The places of the names and the order of the moves may differ. -/
structure Automaton.Restates (a b : Automaton) : Prop where
  states : b.states.keys = a.states.keys
  alphabet : b.alphabet.keys = a.alphabet.keys
  stackAlphabet : b.stackAlphabet.map Table.keys = a.stackAlphabet.map Table.keys
  initial : b.initial = a.initial
  final : b.final.keys = a.final.keys
  rejecting : b.rejecting.keys = a.rejecting.keys
  move? : ∀ s, b.move? s = a.move? s

variable {a b : Automaton}

theorem Automaton.Regroups.restates (h : a.Regroups b) : a.Restates b :=
  ⟨h.states, h.alphabet, h.stackAlphabet, h.initial, h.final, h.rejecting, h.move?⟩

/-! ## Names that can be spelled -/

theorem Automaton.movesFrom_eq_nil {s : State} : a.movesFrom s = [] ↔ ∀ t, t.state = s → a.move? t = none := by
  rw [List.eq_nil_iff_forall_not_mem]
  refine ⟨?_, ?_⟩
  · intro h t ht
    cases hm : a.move? t with
    | none => rfl
    | some move => exact absurd (mem_movesFrom.mpr ⟨Table.mem_of_get? hm, ht⟩) (h (t, move))
  · intro h entry he
    obtain ⟨hmem, hstate⟩ := mem_movesFrom.mp he
    cases (h entry.1 hstate).symm.trans (Table.get?_eq_some.mpr hmem)

/-- The outline of an automaton can be written down exactly when its names are lexable and
    no header of a group opens a comment. -/
theorem Automaton.spelled_iff :
    a.outline.Spelled ↔ (∀ name ∈ a.names, Lexable name) ∧
      ∀ s ∈ a.states.keys, a.movesFrom s ≠ [] → ¬ OpensComment s.name := by
  have hheaders : (∀ q ∈ a.outline.headers, ¬ OpensComment q) ↔
      ∀ s ∈ a.states.keys, a.movesFrom s ≠ [] → ¬ OpensComment s.name := by
    simp only [Automaton.outline, List.forall_mem_map, List.mem_filter, and_imp, Bool.not_eq_true',
      List.isEmpty_eq_false_iff]
  have hsymbols : (∀ symbols ∈ a.outline.stackAlphabet, ∀ s ∈ symbols, IsWord s) ↔
      ∀ s ∈ a.outline.stackAlphabet.getD [], IsWord s := by
    cases a.outline.stackAlphabet <;> simp
  simp only [Automaton.names, List.forall_mem_append, ← isWord_iff_lexable]
  refine ⟨?_, ?_⟩
  · intro h
    exact ⟨⟨⟨h.states, h.alphabet⟩, hsymbols.mp h.symbols⟩, hheaders.mp h.headers⟩
  · intro h
    obtain ⟨⟨⟨hstates, halphabet⟩, hstack⟩, hcomment⟩ := h
    exact ⟨hstates, halphabet, hsymbols.mpr hstack, hheaders.mpr hcomment⟩

/-- Whether an automaton can be written down depends on its names and on which states have
    a move. -/
theorem Automaton.Restates.spelled (h : a.Restates b) (hb : b.outline.Spelled) : a.outline.Spelled := by
  obtain ⟨hnames, hcomment⟩ := Automaton.spelled_iff.mp hb
  refine Automaton.spelled_iff.mpr ⟨?_, ?_⟩
  · have hstack : (b.stackAlphabet.map fun symbols => symbols.keys.map Symbol.name) =
        a.stackAlphabet.map fun symbols => symbols.keys.map Symbol.name := by
      have := congrArg (Option.map (List.map Symbol.name)) h.stackAlphabet
      rwa [Option.map_map, Option.map_map] at this
    rw [Automaton.names, h.states, h.alphabet, hstack] at hnames
    exact hnames
  · intro s hs hmoves
    refine hcomment s (h.states ▸ hs) ?_
    intro hnone
    apply hmoves
    rw [Automaton.movesFrom_eq_nil] at hnone ⊢
    intro t ht
    rw [← h.move?, hnone t ht]

/-! ## The boundary -/

/-- The canonical form of an automaton that was built from sections, whatever their names,
    loads to the same automaton exactly when each of its names is lexable and no state with
    a move begins with `#`. -/
theorem load_canonical_iff {sections : List (Located Section)}
    (h : (Definition.ofSections sections).automaton = some a) :
    (∃ b, load a.canonical = .ok b ∧ a.Restates b) ↔
      (∀ name ∈ a.names, Lexable name) ∧ ∀ s ∈ a.states.keys, a.movesFrom s ≠ [] → ¬ OpensComment s.name := by
  rw [← Automaton.spelled_iff]
  refine ⟨?_, ?_⟩
  · intro hload
    obtain ⟨b, hb, hrestates⟩ := hload
    exact hrestates.spelled (spelled_of_load hb)
  · intro hspelled
    obtain ⟨-, hwellFormed, hdescribes⟩ := automaton_ofReading.mp h
    obtain ⟨b, hb, hregroups⟩ := load_canonical (hdescribes.sound hwellFormed) hspelled
    exact ⟨b, hb, hregroups.restates⟩

/-- A state `#q`, and a state that reads a letter on its way there. -/
def commentedStates (source letter : String) : List (Located Section) :=
  let name (text : String) : Ident := ⟨text, ⟨0, 0⟩⟩
  let list (label : String) (names : List String) : Located Section :=
    ⟨.list (name label) ⟨names.map name, ⟨0, 0⟩⟩, ⟨0, 0⟩⟩
  [list "states" [source, "#q"], list "alphabet" [letter], list "initial_state" [source], list "final_states" [],
    ⟨.transitions (name "transition_function")
      [⟨⟨name source, [⟨⟨name letter, name "STACK_END", name "#q", ⟨[name letter], ⟨0, 0⟩⟩⟩, ⟨0, 0⟩⟩]⟩, ⟨0, 0⟩⟩],
      ⟨0, 0⟩⟩]

/-- A `#` before the name of a state without moves does no harm, nor does one for a letter. A
    blank for a letter does, and a `#` before the name of the other state. -/
theorem load_canonical_iff_of_commentedStates :
    (∃ a ∈ (Definition.ofSections (commentedStates "p" "#")).automaton, ∃ b, load a.canonical = .ok b ∧ a.Restates b) ∧
      (∃ a ∈ (Definition.ofSections (commentedStates "p" " ")).automaton,
        ¬ ∃ b, load a.canonical = .ok b ∧ a.Restates b) ∧
      ∃ a ∈ (Definition.ofSections (commentedStates "#p" "#")).automaton,
        ¬ ∃ b, load a.canonical = .ok b ∧ a.Restates b := by
  have hplain : ∃ a ∈ (Definition.ofSections (commentedStates "p" "#")).automaton,
      (∀ name ∈ a.names, Lexable name) ∧ ∀ s ∈ a.states.keys, a.movesFrom s ≠ [] → ¬ OpensComment s.name := by
    decide +kernel
  have hblank : ∃ a ∈ (Definition.ofSections (commentedStates "p" " ")).automaton,
      ¬ ∀ name ∈ a.names, Lexable name := by
    decide +kernel
  have hcomment : ∃ a ∈ (Definition.ofSections (commentedStates "#p" "#")).automaton,
      ¬ ∀ s ∈ a.states.keys, a.movesFrom s ≠ [] → ¬ OpensComment s.name := by
    decide +kernel
  obtain ⟨a, ha, hspelled⟩ := hplain
  obtain ⟨b, hb, hname⟩ := hblank
  obtain ⟨c, hc, hheader⟩ := hcomment
  refine ⟨⟨a, ha, (load_canonical_iff ha).mpr hspelled⟩, ⟨b, hb, ?_⟩, c, hc, ?_⟩
  · intro hload
    exact hname ((load_canonical_iff hb).mp hload).1
  · intro hload
    exact hheader ((load_canonical_iff hc).mp hload).2

end Pushdown
