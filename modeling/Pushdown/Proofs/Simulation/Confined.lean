/-
  Pushdown.Proofs.Simulation.Confined — a run stays among the declared names.

  The state of a simulation is declared, every letter it read is in the alphabet, and what
  lies on the stack was put there by a move, so it is a declared stack symbol and bears no
  reserved name (`confined_after`). The check of a definition looks at each transition once;
  that the moves keep to the declared names then holds on every input.

  An input may hold any characters. One outside the alphabet is never used up: the position
  stays before it, and the step that would read it finds no move (`confined_of_load`).
-/

import Mathlib.Data.List.Induction
import Pushdown.Proofs.Automaton.Moves
import Pushdown.Proofs.Simulation.Replay
import Pushdown.Proofs.Simulation.Verdict

namespace Pushdown

/-- A symbol is listed as a stack symbol, or else is a letter of one character. -/
def Automaton.HasSymbol (a : Automaton) (x : Symbol) : Prop :=
  match a.stackAlphabet with
  | some symbols => x ∈ symbols.keys
  | none => ∃ c, .char c ∈ a.alphabet.keys ∧ x.name = String.singleton c

/-- Nothing in a simulation is undeclared. -/
structure Confined (a : Automaton) (s : Simulation) : Prop where
  state : s.configuration.state ∈ a.states.keys
  symbols : ∀ x ∈ s.configuration.stack.symbols, a.HasSymbol x ∧ x.name ≠ "STACK_END" ∧ x.name ≠ "INPUT_END"
  letters : ∀ step ∈ s.trace, step.situation.letter ∈ a.alphabet.keys

theorem Automaton.hasSymbol_of_outline {a : Automaton} {x : Symbol} (h : a.outline.HasSymbol x.name) :
    a.HasSymbol x := by
  unfold Outline.HasSymbol Automaton.outline at h
  unfold HasSymbol
  cases hk : a.stackAlphabet with
  | some symbols =>
    simp only [hk, Option.map_some] at h
    obtain ⟨y, hy, hname⟩ := List.mem_map.mp h
    obtain rfl : y = x := accepts_symbol.text_inj _ _ hname
    exact hy
  | none =>
    simp only [hk, Option.map_none] at h
    obtain ⟨hmem, hlength⟩ := h
    obtain ⟨l, hl, hname⟩ := List.mem_map.mp hmem
    cases l with
    | char c => exact ⟨c, hl, hname.symm⟩
    | inputEnd =>
      rw [← hname] at hlength
      exact absurd hlength (by decide)

/-- Whatever lies on the stack was put there by a step. -/
theorem Step.mem_stackAfter {trace : List Step} {x : Symbol} (h : x ∈ (stackAfter trace).symbols) :
    ∃ step ∈ trace, .symbol x ∈ step.move.push := by
  induction trace using List.reverseRecOn with
  | nil => cases h
  | append_singleton before step ih =>
    rw [stackAfter_snoc, Stack.symbols_replaceTop, List.mem_append] at h
    rcases h with hold | hnew
    · obtain ⟨earlier, hmem, hx⟩ := ih (List.dropLast_subset _ hold)
      exact ⟨earlier, List.mem_append_left _ hmem, hx⟩
    · obtain ⟨y, hy, hstored⟩ := List.mem_filterMap.mp hnew
      cases y with
      | stackEnd => cases hstored
      | symbol y =>
        cases hstored
        exact ⟨step, by simp, hy⟩

namespace Simulation

variable {a : Automaton} {k : Nat}

theorem confined_after (hs : a.Sound) (input : String) (k : Nat) : Confined a (after a input k) := by
  have ht := tracked_after a input k
  refine ⟨?_, ?_, ?_⟩
  · rw [(judged_after a input k).state]
    cases hlast : (after a input k).trace.getLast? with
    | none => exact hs.initial_mem
    | some step => exact hs.target_mem (ht.moves step (List.mem_of_getLast? hlast))
  · intro x hx
    rw [ht.stack] at hx
    obtain ⟨step, hstep, hpush⟩ := Step.mem_stackAfter hx
    have hsymbol : a.outline.HasSymbol x.name := hs.hasSymbol (ht.moves step hstep) hpush
    exact ⟨Automaton.hasSymbol_of_outline hsymbol, hsymbol.free hs.outline.symbols_free⟩
  · intro step hstep
    exact hs.letter_mem (ht.moves step hstep)

/-! ## Characters outside the alphabet -/

variable {input : String} {before rest : List Char} {c : Char}

/-- The step that would read the character was not taken. -/
theorem length_trace_of_notMem (hs : a.Sound) (hi : input.toList = before ++ c :: rest)
    (hc : .char c ∉ a.alphabet.keys) : (after a input k).trace.length ≤ before.length := by
  apply Nat.le_of_not_lt
  intro hlt
  have hread := (tracked_after a input k).letter before.length hlt
  have hindex : Letter.ofIndex input.toList before.length = .char c := by
    simp [Letter.ofIndex, hi]
  have hmem := (confined_after hs input k).letters _ (List.getElem_mem hlt)
  rw [hread, hindex] at hmem
  exact hc hmem

theorem position_of_notMem (hs : a.Sound) (hi : input.toList = before ++ c :: rest)
    (hc : .char c ∉ a.alphabet.keys) :
    (after a input k).configuration.position ≤ Text.byteLength before := by
  have hlength := @length_trace_of_notMem a k input before rest c hs hi hc
  rw [(tracked_after a input k).position, hi, List.take_append_of_le_length hlength]
  have hsplit := Text.byteLength_append (before.take (after a input k).trace.length)
    (before.drop (after a input k).trace.length)
  rw [List.take_append_drop] at hsplit
  omega

/-- At the character there is no move. -/
theorem move?_of_notMem (hs : a.Sound) (hi : input.toList = before ++ c :: rest) (hc : .char c ∉ a.alphabet.keys)
    (hp : (after a input k).configuration.position = Text.byteLength before) : (after a input k).move? = none := by
  have hnext : (after a input k).letter = .char c := by
    rw [(Replayed.of_tracked (tracked_after a input k)).next, hp, hi, Letter.ofOffset, Text.dropBytes?_append]
  cases hm : (after a input k).move? with
  | none => rfl
  | some m =>
    rw [move?_after] at hm
    have hmem := hs.letter_mem (Table.mem_of_get? hm)
    simp only [situation, hnext] at hmem
    exact absurd hmem hc

end Simulation

open Simulation

/-- On any input, after any number of steps, a loaded automaton is among its declared
    states, letters and stack symbols. A character outside its alphabet is never used up,
    and a step that comes to it without a verdict gets stuck. -/
theorem confined_of_load {source : String} {a : Automaton} (h : load source = .ok a) (input : String) (k : Nat) :
    Confined a (after a input k) ∧
      ∀ before c rest, input.toList = before ++ c :: rest → .char c ∉ a.alphabet.keys →
        (after a input k).configuration.position ≤ Text.byteLength before ∧
        ((after a input k).configuration.position = Text.byteLength before → (after a input k).verdict = none →
          (after a input k).step.2.verdict = some .stuck) := by
  have hs := sound_of_load h
  refine ⟨confined_after hs input k, ?_⟩
  intro before c rest hi hc
  refine ⟨position_of_notMem hs hi hc, ?_⟩
  intro hp hv
  rw [step_of_no_move hv (move?_of_notMem hs hi hc hp)]
  rfl

/-- The `b` of `ab` is no letter: after the first step the run is before it, and stuck with
    the next. -/
theorem confined_of_carousel :
    load carousel = .ok .carousel ∧ "ab".toList = ['a'] ++ 'b' :: [] ∧ .char 'b' ∉ Automaton.carousel.alphabet.keys ∧
      (after .carousel "ab" 1).configuration.position = Text.byteLength ['a'] ∧
      (after .carousel "ab" 1).verdict = none ∧
      Confined .carousel (after .carousel "ab" 1) ∧
      (after .carousel "ab" 1).configuration.stack.symbols = [⟨"a"⟩] ∧
      (after .carousel "ab" 1).step.2.verdict = some .stuck := by
  have hc : .char 'b' ∉ Automaton.carousel.alphabet.keys := by decide
  obtain ⟨hconfined, hunread⟩ := confined_of_load load_carousel "ab" 1
  exact ⟨load_carousel, rfl, hc, rfl, rfl, hconfined, rfl, (hunread ['a'] 'b' [] rfl hc).2 rfl rfl⟩

end Pushdown
