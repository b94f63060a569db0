/-
  Pushdown.Proofs.Run.Meaning — runs of two automata that mean the same.

  A simulation asks its automaton for the initial state, for the move of a situation and
  whether a state is final or rejecting, and for nothing else. Two automata that answer
  these alike take the same steps (`after_eq_on`) and give the same results
  (`Automaton.Alike.runBounded`), whatever else they declare.

  `runs_of_meaning`: this is so of automata with the same initial, final and rejecting
  states and the same moves, in whatever order and declared wherever; and so of an
  automaton that was loaded and the one that its canonical text loads to.
-/

import Pushdown.Proofs.Automaton.RoundTrip
import Pushdown.Proofs.Run.Agreement

namespace Pushdown

/-- Two automata give the same answers to all that a run asks. -/
structure Automaton.Alike (a b : Automaton) : Prop where
  initial : a.initial = b.initial
  isFinal : ∀ q, a.isFinal q = b.isFinal q
  isRejecting : ∀ q, a.isRejecting q = b.isRejecting q
  move? : ∀ s, a.move? s = b.move? s

namespace Simulation

/-- The same simulation of another automaton. -/
def on (b : Automaton) (s : Simulation) : Simulation := { s with automaton := b }

variable {a b : Automaton}

@[simp] theorem finish_on (s : Simulation) : (s.on b).finish = s.finish := rfl
@[simp] theorem verdict_on (s : Simulation) : (s.on b).verdict = s.verdict := rfl
@[simp] theorem situation_on (s : Simulation) : (s.on b).situation = s.situation := rfl

theorem move?_on (h : a.Alike b) {s : Simulation} (hs : s.automaton = a) : (s.on b).move? = s.move? := by
  subst hs
  exact (h.move? s.situation).symm

theorem step_on (h : a.Alike b) {s : Simulation} (hs : s.automaton = a) :
    (s.on b).step = (s.step.1, s.step.2.on b) := by
  have hmove := move?_on h hs
  subst hs
  have hb : (s.on b).automaton = b := rfl
  unfold step
  rw [hmove, hb, situation_on, verdict_on]
  cases s.verdict with
  | some v => rfl
  | none =>
    cases s.move? with
    | none => rfl
    | some m =>
      simp only [h.isFinal, h.isRejecting]
      split
      · rfl
      · split <;> rfl

theorem after_eq_on (h : a.Alike b) (input : String) (k : Nat) : after b input k = (after a input k).on b := by
  induction k with
  | zero =>
    rw [after, after, start, start, h.initial]
    rfl
  | succ k ih => rw [after, after, ih, step_on h (automaton_after a input k)]

end Simulation

open Simulation

theorem Automaton.Alike.runBounded {a b : Automaton} (h : a.Alike b) (input : String) (limit : Nat) :
    a.runBounded input limit = b.runBounded input limit := by
  rcases runBounded_cases a input limit with ⟨k, -, r, hr, hf, hlength⟩ | ⟨hr, hv, hm⟩
  · rw [hr, eq_comm, runBounded_eq_ok]
    exact ⟨k, by rw [after_eq_on h, finish_on, hf], hlength⟩
  · rw [hr, eq_comm, runBounded_eq_error, after_eq_on h, verdict_on, move?_on h (automaton_after a input limit)]
    exact ⟨rfl, hv, hm⟩

/-! ## Automata that mean the same -/

/-- Two automata mean the same: runs begin in the same state and end in the same states,
    and the moves are the same mapping. -/
structure Automaton.SameMeaning (a b : Automaton) : Prop where
  initial : a.initial = b.initial
  final : ∀ q, q ∈ a.final.keys ↔ q ∈ b.final.keys
  rejecting : ∀ q, q ∈ a.rejecting.keys ↔ q ∈ b.rejecting.keys
  moves : ∀ s, a.moves.get? s = b.moves.get? s

/-- Two automata run every input alike, step by step and to the same results. -/
structure Automaton.SameRuns (a b : Automaton) : Prop where
  configuration : ∀ input k, (after a input k).configuration = (after b input k).configuration
  letter : ∀ input k, (after a input k).letter = (after b input k).letter
  trace : ∀ input k, (after a input k).trace = (after b input k).trace
  verdict : ∀ input k, (after a input k).verdict = (after b input k).verdict
  bounded : ∀ input limit, a.runBounded input limit = b.runBounded input limit
  unbounded : ∀ input, a.run input = b.run input

namespace Automaton

variable {a b : Automaton}

theorem SameMeaning.alike (h : a.SameMeaning b) : a.Alike b where
  initial := h.initial
  isFinal := by
    intro q
    rw [isFinal, isFinal, Bool.eq_iff_iff, Table.contains_eq_true, Table.contains_eq_true]
    exact h.final q
  isRejecting := by
    intro q
    rw [isRejecting, isRejecting, Bool.eq_iff_iff, Table.contains_eq_true, Table.contains_eq_true]
    exact h.rejecting q
  move? := h.moves

/-- Two simulations that differ in the automaton alone differ in nothing that is asked for. -/
theorem Alike.sameRuns (h : a.Alike b) : a.SameRuns b where
  configuration input k := by
    rw [after_eq_on h]
    rfl
  letter input k := by
    rw [after_eq_on h]
    rfl
  trace input k := by
    rw [after_eq_on h]
    rfl
  verdict input k := by rw [after_eq_on h, verdict_on]
  bounded := h.runBounded
  unbounded input := by
    refine Option.ext fun r => ?_
    rw [run_eq_some, run_eq_some]
    refine exists_congr fun k => ?_
    rw [after_eq_on h, finish_on]

/-- To group the moves by state changes nothing that they mean. -/
theorem Regroups.sameMeaning (h : a.Regroups b) : a.SameMeaning b where
  initial := h.initial.symm
  final q := by rw [h.final]
  rejecting q := by rw [h.rejecting]
  moves s := (h.move? s).symm

end Automaton

/-- Runs depend only on what an automaton means: two that mean the same run every input
    alike, and so do a loaded automaton and what its canonical text loads to. -/
theorem runs_of_meaning :
    (∀ a b : Automaton, a.SameMeaning b → a.SameRuns b) ∧
      ∀ source a, load source = .ok a → ∃ b, load a.canonical = .ok b ∧ a.SameRuns b := by
  refine ⟨fun a b h => h.alike.sameRuns, ?_⟩
  intro source a ha
  obtain ⟨b, hb, hr⟩ := load_canonical (sound_of_load ha) (spelled_of_load ha)
  exact ⟨b, hb, hr.sameMeaning.alike.sameRuns⟩

/-- Two automata with their moves in different orders, and what `runs_of_meaning` says of
    them. -/
theorem runs_of_unorderedGroups :
    ∃ a b : Automaton, a.moves.entries ≠ b.moves.entries ∧ a.SameMeaning b ∧ a.SameRuns b := by
  have hgroups : ∃ a ∈ (load unorderedGroups).toOption, a.moves.entries ≠ a.regrouped := by decide +kernel
  obtain ⟨a, ha, hne⟩ := hgroups
  have hload := mem_toOption_load.mp ha
  obtain ⟨b, -, hr⟩ := load_canonical (sound_of_load hload) (spelled_of_load hload)
  exact ⟨a, b, hr.entries ▸ hne, hr.sameMeaning, runs_of_meaning.1 a b hr.sameMeaning⟩

end Pushdown
