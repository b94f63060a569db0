/-
  Pushdown.Proofs.Automaton.Sound — what holds of every automaton that is loaded.

  `Automaton.outline` is what the canonical form of an automaton says. An automaton is
  sound when its outline is well-formed and its table holds what the rules of the outline
  stand for; `sound_of_load`: every loaded automaton is, and can be written down again.
-/

import Pushdown.Automaton.Canonical
import Pushdown.Proofs.Automaton.Check
import Pushdown.Proofs.Section.Spelling

namespace Pushdown

/-! ## Entries as rules -/

namespace Rule

/-- The rule of an entry. -/
def ofEntry (entry : Situation × Move) : Rule where
  state := entry.1.state.name
  letter := entry.1.letter.text
  top := entry.1.top.text
  next := entry.2.state.name
  push := entry.2.push.map StackSymbol.text

theorem ofEntry_of_meaning {r : Rule} {entry : Situation × Move} (h : r.meaning? = some entry) : ofEntry entry = r := by
  obtain ⟨letter, hl, rfl⟩ := Option.map_eq_some_iff.mp h
  simp [ofEntry, Letter.text_of_ofText? hl, Function.comp_def]

theorem map_ofEntry {entries : List (Situation × Move)} {rules : List Rule}
    (h : entries.map some = rules.map meaning?) : entries.map ofEntry = rules := by
  induction rules generalizing entries with
  | nil => simpa using h
  | cons r rest ih =>
    cases entries with
    | nil => cases h
    | cons entry later =>
      simp only [List.map_cons, List.cons.injEq] at h
      rw [List.map_cons, ofEntry_of_meaning h.1.symm, ih h.2]

theorem state_mem_headers {sections : List (Located Section)} {r : Rule}
    (h : r ∈ (Outline.ofSections sections).rules) : r.state ∈ (Outline.ofSections sections).headers := by
  obtain ⟨g, hg, hr⟩ := List.mem_flatMap.mp h
  obtain ⟨t, -, rfl⟩ := List.mem_map.mp hr
  exact List.mem_map_of_mem hg

end Rule

/-! ## The moves in their canonical order -/

namespace Automaton

/-- The entries of the table under their states, in the order the states are listed. -/
def regrouped (a : Automaton) : List (Situation × Move) := a.states.keys.flatMap a.movesFrom

theorem mem_movesFrom {a : Automaton} {s : State} {entry : Situation × Move} :
    entry ∈ a.movesFrom s ↔ entry ∈ a.moves.entries ∧ entry.1.state = s := by
  simp [movesFrom]

theorem mem_regrouped {a : Automaton} {entry : Situation × Move} :
    entry ∈ a.regrouped ↔ entry ∈ a.moves.entries ∧ entry.1.state ∈ a.states.keys := by
  simp only [regrouped, List.mem_flatMap, mem_movesFrom]
  refine ⟨?_, ?_⟩
  · intro h
    obtain ⟨s, hs, he, rfl⟩ := h
    exact ⟨he, hs⟩
  · intro h
    obtain ⟨he, hs⟩ := h
    exact ⟨_, hs, he, rfl⟩

/-- What sets apart any two entries, and those of different states, still does. -/
theorem regrouped_pairwise {a : Automaton} {R : Situation × Move → Situation × Move → Prop}
    (h : a.moves.entries.Pairwise R) (hstate : ∀ e e' : Situation × Move, e.1.state ≠ e'.1.state → R e e') :
    a.regrouped.Pairwise R := by
  rw [regrouped, List.pairwise_flatMap]
  refine ⟨?_, ?_⟩
  · intro s _
    exact h.sublist List.filter_sublist
  · refine a.states.distinct.imp fun {s s'} hne e he e' he' => hstate e e' ?_
    rw [(mem_movesFrom.mp he).2, (mem_movesFrom.mp he').2]
    exact hne

/-! ## Outlines of automata -/

/-- What the canonical form of an automaton says. -/
def outline (a : Automaton) : Outline where
  states := a.states.keys.map State.name
  alphabet := a.alphabet.keys.map Letter.text
  stackAlphabet := a.stackAlphabet.map fun symbols => symbols.keys.map Symbol.name
  initial := [a.initial.name]
  final := a.final.keys.map State.name
  rejecting := a.rejecting.keys.map State.name
  headers := (a.states.keys.filter fun s => !(a.movesFrom s).isEmpty).map State.name
  rules := a.regrouped.map Rule.ofEntry

structure Sound (a : Automaton) : Prop where
  outline : a.outline.WellFormed
  states : ∀ entry ∈ a.moves.entries, entry.1.state ∈ a.states.keys
  /-- No stack symbol of the table is the bottom under another form. -/
  entries : ∀ entry ∈ a.moves.entries, (Rule.ofEntry entry).meaning? = some entry

end Automaton

/-- Rules may be left out or take another order. -/
theorem Outline.WellFormed.regroup {o : Outline} (h : o.WellFormed) {headers : List String} {rules : List Rule}
    (hh : ∀ q ∈ headers, q ∈ o.states) (hr : ∀ r ∈ rules, r ∈ o.rules) (hd : (rules.map Rule.origin).Nodup) :
    { o with headers := headers, rules := rules : Outline }.WellFormed where
  states_ne_nil := h.states_ne_nil
  states_nodup := h.states_nodup
  states_free := h.states_free
  alphabet_ne_nil := h.alphabet_ne_nil
  alphabet_nodup := h.alphabet_nodup
  letters := h.letters
  symbols_nodup := h.symbols_nodup
  symbols_free := h.symbols_free
  initial := h.initial
  final_nodup := h.final_nodup
  final_states := h.final_states
  rejecting_nodup := h.rejecting_nodup
  rejecting_states := h.rejecting_states
  headers := hh
  rules r hmem :=
    have ha := h.rules r (hr r hmem)
    ⟨ha.letter, ha.next, ha.top, ha.first, ha.rest⟩
  deterministic := hd

/-! ## Loaded automata -/

section Describes

variable {sections : List (Located Section)} {a : Automaton}

theorem Describes.rule_of_entry (hd : Describes sections a) {entry : Situation × Move}
    (h : entry ∈ a.moves.entries) :
    Rule.ofEntry entry ∈ (Outline.ofSections sections).rules ∧ (Rule.ofEntry entry).meaning? = some entry := by
  have hmem : some entry ∈ a.moves.entries.map some := List.mem_map_of_mem h
  rw [hd.moves] at hmem
  obtain ⟨r, hr, he⟩ := List.mem_map.mp hmem
  rw [Rule.ofEntry_of_meaning he]
  exact ⟨hr, he⟩

/-- What a described automaton says is what its sections say, but for the order of the
    moves and for headers without any. -/
theorem Describes.outline_eq (hd : Describes sections a) :
    a.outline = { Outline.ofSections sections with headers := a.outline.headers, rules := a.outline.rules } := by
  have hstack := congrArg (Option.map namesIn) hd.stackAlphabet
  rw [Option.map_map, Option.map_map] at hstack
  simp only [Automaton.outline, Outline.ofSections, Outline.mk.injEq, ← hd.states, ← hd.alphabet, ← hd.initial,
    ← hd.final, ← hd.rejecting, namesIn_idents, and_true, true_and]
  simpa only [Function.comp_def, namesIn_idents] using hstack

theorem Describes.state_mem (hw : WellFormed sections) (hd : Describes sections a) {entry : Situation × Move}
    (h : entry ∈ a.moves.entries) : entry.1.state ∈ a.states.keys := by
  have hheader := hw.outline.headers _ (Rule.state_mem_headers (hd.rule_of_entry h).1)
  rw [← congrArg Outline.states hd.outline_eq] at hheader
  obtain ⟨s, hs, hname⟩ := List.mem_map.mp hheader
  obtain rfl : s = entry.1.state := accepts_state.text_inj _ _ hname
  exact hs

theorem Describes.sound (hw : WellFormed sections) (hd : Describes sections a) : a.Sound := by
  refine ⟨?_, fun entry he => hd.state_mem hw he, fun entry he => (hd.rule_of_entry he).2⟩
  rw [hd.outline_eq]
  refine hw.outline.regroup ?_ ?_ ?_
  · intro q hq
    obtain ⟨s, hs, rfl⟩ := List.mem_map.mp hq
    rw [← congrArg Outline.states hd.outline_eq]
    exact List.mem_map_of_mem (List.mem_filter.mp hs).1
  · intro r hr
    obtain ⟨entry, he, rfl⟩ := List.mem_map.mp hr
    exact (hd.rule_of_entry (Automaton.mem_regrouped.mp he).1).1
  · have hdet := hw.outline.deterministic
    rw [← Rule.map_ofEntry hd.moves, List.map_map] at hdet
    rw [Automaton.outline, List.map_map, List.Nodup, List.pairwise_map]
    refine Automaton.regrouped_pairwise (List.pairwise_map.mp hdet) ?_
    intro e e' hne heq
    exact hne (accepts_state.text_inj _ _ (congrArg Prod.fst heq))

theorem Describes.spelled (hd : Describes sections a) (hs : (Outline.ofSections sections).Spelled) :
    a.outline.Spelled := by
  rw [hd.outline_eq]
  refine ⟨hs.states, hs.alphabet, hs.symbols, ?_⟩
  intro q hq
  obtain ⟨s, hmem, rfl⟩ := List.mem_map.mp hq
  -- a state with a move stands over a group
  cases hm : a.movesFrom s with
  | nil => simp [hm] at hmem
  | cons entry rest =>
    obtain ⟨he, rfl⟩ := Automaton.mem_movesFrom.mp (hm ▸ List.mem_cons_self)
    exact hs.headers _ (Rule.state_mem_headers (hd.rule_of_entry he).1)

end Describes

/-- A text loads exactly when it is read without a finding and its sections make sense. -/
theorem load_eq_ok {source : String} {a : Automaton} :
    load source = .ok a ↔
      ∃ sections, readDefinition source = ⟨sections, []⟩ ∧ WellFormed sections ∧ Describes sections a := by
  have hread : Clean (readDefinition source).findings ↔ (readDefinition source).findings = [] := by
    rw [readDefinition_findings_eq_nil, any_isError_eq_false]
  rw [load_eq_ok_iff, Definition.ofSource, automaton_ofReading, hread]
  refine ⟨?_, ?_⟩
  · intro h
    obtain ⟨hf, hw, hd⟩ := h
    exact ⟨_, by rw [← hf], hw, hd⟩
  · intro h
    obtain ⟨sections, hr, hw, hd⟩ := h
    rw [hr]
    exact ⟨rfl, hw, hd⟩

/-- A loaded automaton is sound. -/
theorem sound_of_load {source : String} {a : Automaton} (h : load source = .ok a) : a.Sound := by
  obtain ⟨sections, -, hw, hd⟩ := load_eq_ok.mp h
  exact hd.sound hw

/-- The names of a loaded automaton can be written down. -/
theorem spelled_of_load {source : String} {a : Automaton} (h : load source = .ok a) : a.outline.Spelled := by
  obtain ⟨sections, hr, -, hd⟩ := load_eq_ok.mp h
  exact hd.spelled (spelled_of_read hr)

end Pushdown
