/-
  Pushdown.Proofs.Automaton.RoundTrip — a canonical text loads to what it was written from.

  The canonical text of a sound automaton whose names are spelled as words is read as
  sections with the automaton's own outline (`read_canonical`). Whatever these sections
  describe is the automaton again, but for the places of its names and for the order of
  its moves, which are now under their states (`Regroups.of_outline`).
-/

import Pushdown.Proofs.Automaton.Written

namespace Pushdown

open Grammar

/-- One automaton is another with its moves grouped by state, in the order of the states.
    The places of the names may differ. -/
structure Automaton.Regroups (a b : Automaton) : Prop where
  states : b.states.keys = a.states.keys
  alphabet : b.alphabet.keys = a.alphabet.keys
  stackAlphabet : b.stackAlphabet.map Table.keys = a.stackAlphabet.map Table.keys
  initial : b.initial = a.initial
  final : b.final.keys = a.final.keys
  rejecting : b.rejecting.keys = a.rejecting.keys
  move? : ∀ s, b.move? s = a.move? s
  entries : b.moves.entries = a.regrouped

variable {a b : Automaton}

/-! ## Regrouped moves -/

theorem filter_movesFrom (q s : State) :
    (a.movesFrom q).filter (fun entry => entry.1.state = s) = if q = s then a.movesFrom s else [] := by
  split
  · next e =>
    subst e
    exact List.filter_eq_self.mpr fun entry he => by simpa using (Automaton.mem_movesFrom.mp he).2
  · next hne =>
    refine List.filter_eq_nil_iff.mpr fun entry he => ?_
    rw [(Automaton.mem_movesFrom.mp he).2]
    simpa using hne

theorem filter_regrouped {s : State} (hs : s ∈ a.states.keys) :
    a.regrouped.filter (fun entry => entry.1.state = s) = a.movesFrom s := by
  have hother : ∀ {states : List State}, s ∉ states →
      (states.flatMap a.movesFrom).filter (fun entry => entry.1.state = s) = [] := by
    intro states hno
    rw [List.filter_flatMap, List.flatMap_eq_nil_iff]
    intro q hq
    rw [filter_movesFrom, if_neg]
    intro h
    subst h
    exact hno hq
  have hn : a.states.keys.Nodup := a.states.distinct
  unfold Automaton.regrouped
  obtain ⟨before, after, hsplit⟩ := List.append_of_mem hs
  rw [hsplit] at hn ⊢
  have hbefore : s ∉ before := fun hm => (List.nodup_append.mp hn).2.2 s hm s List.mem_cons_self rfl
  have hafter : s ∉ after := (List.nodup_cons.mp (List.nodup_append.mp hn).2.1).1
  rw [List.flatMap_append, List.flatMap_cons, List.filter_append, List.filter_append, hother hbefore, hother hafter,
    filter_movesFrom, if_pos rfl, List.nil_append, List.append_nil]

namespace Automaton.Regroups

theorem movesFrom (h : a.Regroups b) {s : State} (hs : s ∈ a.states.keys) : b.movesFrom s = a.movesFrom s := by
  rw [Automaton.movesFrom, h.entries]
  exact filter_regrouped hs

/-- Both are written alike. -/
theorem canonical (h : a.Regroups b) : b.canonical = a.canonical := by
  have hgroups : b.states.keys.flatMap b.groupLines = a.states.keys.flatMap a.groupLines := by
    rw [h.states, List.flatMap_def, List.flatMap_def]
    refine congrArg List.flatten (List.map_congr_left fun s hs => ?_)
    rw [Automaton.groupLines, Automaton.groupLines, h.movesFrom hs]
  have hstack : (b.stackAlphabet.map fun symbols => listLine .stackAlphabet (symbols.keys.map Symbol.name)) =
      a.stackAlphabet.map fun symbols => listLine .stackAlphabet (symbols.keys.map Symbol.name) := by
    have := congrArg (Option.map fun keys => listLine .stackAlphabet (keys.map Symbol.name)) h.stackAlphabet
    simpa only [Option.map_map, Function.comp_def] using this
  rw [Automaton.canonical, Automaton.canonical, Automaton.canonicalLines, Automaton.canonicalLines, hgroups, hstack,
    h.states, h.alphabet, h.initial, h.final, h.rejecting]

end Automaton.Regroups

/-! ## Outlines decide -/

/-- What sections with the outline of a sound automaton describe is that automaton. -/
theorem Automaton.Regroups.of_outline (hs : a.Sound) {sections : List (Located Section)}
    (ho : Outline.ofSections sections = a.outline) (hd : Describes sections b) : a.Regroups b := by
  have hb := hd.outline_eq
  rw [ho] at hb
  have hentries : b.moves.entries = a.regrouped := by
    refine (List.map_inj_right fun _ _ => Option.some.inj).mp (hd.moves.trans ?_)
    rw [ho, Automaton.outline, List.map_map]
    refine List.map_congr_left fun entry he => ?_
    exact hs.entries entry (Automaton.mem_regrouped.mp he).1
  simp only [Automaton.outline, Outline.mk.injEq] at hb
  obtain ⟨hstates, halphabet, hstack, hinitial, hfinal, hrejecting, -⟩ := hb
  refine ⟨?_, ?_, ?_, ?_, ?_, ?_, ?_, hentries⟩
  · exact (List.map_inj_right accepts_state.text_inj).mp hstates
  · exact (List.map_inj_right accepts_letter.text_inj).mp halphabet
  · refine (Option.map_inj_right fun _ _ => (List.map_inj_right accepts_symbol.text_inj).mp).mp ?_
    rw [Option.map_map, Option.map_map]
    exact hstack
  · exact accepts_state.text_inj _ _ (List.singleton_inj.mp hinitial)
  · exact (List.map_inj_right accepts_state.text_inj).mp hfinal
  · exact (List.map_inj_right accepts_state.text_inj).mp hrejecting
  · intro s
    refine Option.ext fun move => ?_
    rw [Automaton.move?, Automaton.move?, Table.get?_eq_some, Table.get?_eq_some, hentries,
      Automaton.mem_regrouped]
    exact and_iff_left_of_imp (hs.states (s, move))

/-! ## The round trip -/

/-- The canonical text of a sound automaton is read as sections with its outline. -/
theorem read_canonical (hs : a.Sound) (hn : a.outline.Spelled) :
    ∃ sections, readDefinition a.canonical = ⟨sections, []⟩ ∧ WellFormed sections ∧
      Outline.ofSections sections = a.outline := by
  obtain ⟨hv, hlines⟩ := layout_written (reads_of_spelled hs hn) 0
  rw [← Automaton.toList_canonical] at hv hlines
  obtain ⟨sections, hsections, hcomplete, ho⟩ := sections_of_written hlines
  exact ⟨sections, readDefinition_eq.mpr ⟨hv, hsections⟩, ⟨hcomplete, ho ▸ hs.outline⟩, ho⟩

theorem load_canonical (hs : a.Sound) (hn : a.outline.Spelled) :
    ∃ b, load a.canonical = .ok b ∧ a.Regroups b := by
  obtain ⟨sections, hr, hw, ho⟩ := read_canonical hs hn
  obtain ⟨b, -, hd⟩ := checkSections_describes (checkSections_clean.mpr hw)
  exact ⟨b, load_eq_ok.mpr ⟨sections, hr, hw, hd⟩, .of_outline hs ho hd⟩

/-- The canonical text of a loaded automaton loads again, to the same automaton with its
    moves under their states, and that is written the same way. -/
theorem load_canonical_of_load {source : String} (h : load source = .ok a) :
    ∃ b, load a.canonical = .ok b ∧ a.Regroups b ∧ b.canonical = a.canonical := by
  obtain ⟨b, hb, hr⟩ := load_canonical (sound_of_load h) (spelled_of_load h)
  exact ⟨b, hb, hr, hr.canonical⟩

/-- Groups in another order than their states, a letter spelled like a comment, no
    rejecting states. -/
def unorderedGroups : String :=
  "states:p,q\nalphabet:#\ninitial_state:p\nfinal_states:\ntransition_function:\n" ++
  " q:\n  (#,#)->q[]\n p:\n  (#,#)->q[#]"

theorem load_canonical_of_unorderedGroups :
    ∃ a b, load unorderedGroups = .ok a ∧ load a.canonical = .ok b ∧ a.Regroups b ∧ b.canonical = a.canonical := by
  obtain ⟨a, ha⟩ := isSome_toOption_load.mp (by decide +kernel : (load unorderedGroups).toOption.isSome)
  obtain ⟨b, hb⟩ := load_canonical_of_load ha
  exact ⟨a, b, ha, hb⟩

end Pushdown
