/-
  Pushdown.Proofs.Run.Termination — a run ends unless the end of the input goes round.

  Until the input is used up each step takes a character of it. After that each step that
  ends nothing goes along an edge of one graph: from state to state by the moves that read
  the end of the input, but for those whose target gives a verdict. Where that graph has no
  cycle no state is met twice, and there are no more states than those declared. So
  `runBounded_of_acyclic`: a bound of one move for each character and one for each state is
  never exceeded. It is the steps that are counted, whatever the stack holds.

  The first state is declared like the others, and may be final: it has not been entered
  when the run starts, and to enter it ends the run.
-/

import Pushdown.Proofs.Run.Agreement
import Pushdown.Proofs.Simulation.Confined

namespace Pushdown

namespace Automaton

/-- A move reads the end of the input, and its target gives no verdict. -/
def EndEdge (a : Automaton) (s t : State) : Prop :=
  ∃ top push, a.move? ⟨s, .inputEnd, top⟩ = some ⟨t, push⟩ ∧ t ∉ a.final.keys ∧ t ∉ a.rejecting.keys

/-- No states go round at the end of the input. -/
def EndAcyclic (a : Automaton) : Prop := ∀ s, ¬ Relation.TransGen a.EndEdge s s

/-- A rank that every edge raises shows that there is no cycle. -/
theorem endAcyclic_of_rank {a : Automaton} (rank : State → Nat)
    (h : ∀ entry ∈ a.moves.entries, entry.1.letter = .inputEnd → a.verdictOf? entry.2.state = none →
      rank entry.1.state < rank entry.2.state) : a.EndAcyclic := by
  have hedge : ∀ s t, a.EndEdge s t → rank s < rank t := by
    intro s t he
    obtain ⟨top, push, hm, hend⟩ := he
    exact h _ (Table.mem_of_get? hm) rfl (verdictOf?_eq_none.mpr hend)
  have hpath : ∀ s t, Relation.TransGen a.EndEdge s t → rank s < rank t := by
    intro s t hst
    induction hst with
    | single he => exact hedge _ _ he
    | tail _ he ih => exact Nat.lt_trans ih (hedge _ _ he)
  intro s hs
  exact Nat.lt_irrefl _ (hpath s s hs)

end Automaton

namespace Simulation

variable {a : Automaton} {input : String} {j k : Nat}

/-! ## Past the end of the input -/

/-- A step past the end of the input that ends nothing goes along an edge. -/
theorem endEdge_after (hk : input.length ≤ k) (hv : (after a input (k + 1)).verdict = none) :
    a.EndEdge (after a input k).configuration.state (after a input (k + 1)).configuration.state := by
  obtain ⟨m, hpending, hm, hend, e⟩ := step_of_pending hv
  have ht := tracked_after a input k
  have hletter : (after a input k).letter = .inputEnd := by
    rw [letter_of_unread ht.unread, length_trace_after hpending, Letter.ofIndex_eq_inputEnd, String.length_toList]
    exact hk
  rw [automaton_after] at hend
  rw [move?_after, situation, hletter] at hm
  rw [after, e]
  exact ⟨_, m.push, hm, Automaton.verdictOf?_eq_none.mp hend⟩

theorem endPath_after (hj : input.length ≤ j) (hjk : j < k) (hv : (after a input k).verdict = none) :
    Relation.TransGen a.EndEdge (after a input j).configuration.state (after a input k).configuration.state := by
  induction hjk with
  | refl => exact .single (endEdge_after hj hv)
  | step hjk ih =>
    have hle : input.length ≤ _ := Nat.le_trans hj (Nat.le_of_lt hjk)
    exact .tail (ih (verdict_none_of_le hv (Nat.le_succ _))) (endEdge_after hle hv)

/-- Without a cycle no state is met twice past the end of the input. -/
theorem state_ne_after (hac : a.EndAcyclic) (hj : input.length ≤ j) (hjk : j < k)
    (hv : (after a input k).verdict = none) :
    (after a input j).configuration.state ≠ (after a input k).configuration.state := by
  intro heq
  have hpath := endPath_after hj hjk hv
  rw [heq] at hpath
  exact hac _ hpath

/-- There is a character or a state for each step. -/
theorem verdict_of_acyclic (hs : a.Sound) (hac : a.EndAcyclic) (input : String) :
    (after a input (input.length + a.states.size)).verdict ≠ none := by
  intro hv
  -- the states met from the end of the input on
  let met := (List.range (a.states.size + 1)).map fun i => (after a input (input.length + i)).configuration.state
  have hnodup : met.Nodup := by
    rw [List.Nodup, List.pairwise_map]
    refine List.pairwise_lt_range.imp_of_mem fun {i j} _ hj hij => ?_
    have hj' : j < a.states.size + 1 := List.mem_range.mp hj
    exact state_ne_after hac (Nat.le_add_right _ _) (by omega) (verdict_none_of_le hv (by omega))
  have hdeclared : met ⊆ a.states.keys := by
    intro q hq
    obtain ⟨i, -, rfl⟩ := List.mem_map.mp hq
    exact (confined_after hs input _).state
  have hlength := hnodup.length_le_of_subset hdeclared
  simp only [met, List.length_map, List.length_range, Table.keys, Table.size] at hlength
  omega

end Simulation

open Simulation

/-! ## The bound -/

/-- Without a cycle at the end of the input the run of a loaded automaton ends, on any
    input, within as many moves as the input has characters and the automaton states. -/
theorem runBounded_of_acyclic {source : String} {a : Automaton} (h : load source = .ok a) (hac : a.EndAcyclic)
    (input : String) :
    ∃ r, a.runBounded input (input.length + a.states.size) = .ok r ∧ a.run input = some r ∧
      r.trace.length ≤ input.length + a.states.size := by
  obtain ⟨v, hv⟩ := Option.ne_none_iff_exists'.mp (verdict_of_acyclic (sound_of_load h) hac input)
  have hf := finish_of_verdict hv
  have hlength : (after a input (input.length + a.states.size)).trace.length ≤ input.length + a.states.size :=
    length_trace_le _
  exact ⟨_, runBounded_eq_ok.mpr ⟨_, hf, hlength⟩, run_eq_some.mpr ⟨_, hf⟩, hlength⟩

/-- All states are met at the end of the input, and the bound is the least. -/
theorem runBounded_of_carousel :
    load carousel = .ok .carousel ∧ Automaton.carousel.EndAcyclic ∧
      (∃ r, Automaton.carousel.runBounded "" ("".length + Automaton.carousel.states.size) = .ok r ∧
        Automaton.carousel.run "" = some r ∧ r.trace.length ≤ "".length + Automaton.carousel.states.size) ∧
      "".length + Automaton.carousel.states.size = 3 ∧ Automaton.carousel.runBounded "" 2 = .error ⟨2⟩ := by
  have hac : Automaton.carousel.EndAcyclic :=
    Automaton.endAcyclic_of_rank (fun s => ["p", "q", "r"].idxOf s.name) (by decide)
  have hshort : Automaton.carousel.runBounded "" 2 = .error ⟨2⟩ :=
    runBounded_eq_error.mpr ⟨rfl, by decide, by decide⟩
  exact ⟨load_carousel, hac, runBounded_of_acyclic load_carousel hac "", rfl, hshort⟩

end Pushdown
