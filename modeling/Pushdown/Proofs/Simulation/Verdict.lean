/-
  Pushdown.Proofs.Simulation.Verdict — a verdict is justified, and it is final.

  The verdict is kept beside the trace. `judged_after`: it is the one that the last target
  of the trace gives, or that there was no move while that target gives none; and no target
  before the last gives any. `stuck_iff`: a simulation is stuck exactly when one of its
  steps found no move.

  `justified_after` says what each verdict stands for, what each step answers, and that a
  step after a verdict answers it again and changes nothing. A state may be final and
  rejecting, and final wins; the first state is never judged, so that an empty trace can
  only be stuck.
-/

import Pushdown.Proofs.Simulation.Step

namespace Pushdown

/-! ## The verdict of a trace -/

namespace Automaton

/-- The verdict that the last target of a trace gives. -/
def verdictAfter? (a : Automaton) (trace : List Step) : Option Verdict :=
  trace.getLast?.bind fun step => a.verdictOf? step.move.state

variable {a : Automaton} {q : State} {trace : List Step} {v : Verdict}

theorem verdictOf?_cases (a : Automaton) (q : State) :
    (q ∈ a.final.keys ∧ a.verdictOf? q = some .accepted) ∨
    (q ∉ a.final.keys ∧ q ∈ a.rejecting.keys ∧ a.verdictOf? q = some .rejected) ∨
    (q ∉ a.final.keys ∧ q ∉ a.rejecting.keys ∧ a.verdictOf? q = none) := by
  by_cases hf : q ∈ a.final.keys
  · simp [verdictOf?, isFinal, hf]
  · by_cases hr : q ∈ a.rejecting.keys <;> simp [verdictOf?, isFinal, isRejecting, hf, hr]

theorem verdictOf?_eq_accepted : a.verdictOf? q = some .accepted ↔ q ∈ a.final.keys := by
  rcases verdictOf?_cases a q with ⟨hf, e⟩ | ⟨hf, hr, e⟩ | ⟨hf, hr, e⟩ <;> simp [e, hf]

theorem verdictOf?_eq_rejected :
    a.verdictOf? q = some .rejected ↔ q ∈ a.rejecting.keys ∧ q ∉ a.final.keys := by
  rcases verdictOf?_cases a q with ⟨hf, e⟩ | ⟨hf, hr, e⟩ | ⟨hf, hr, e⟩
  · simp [e, hf]
  · simp [e, hf, hr]
  · simp [e, hr]

theorem verdictOf?_eq_none : a.verdictOf? q = none ↔ q ∉ a.final.keys ∧ q ∉ a.rejecting.keys := by
  rcases verdictOf?_cases a q with ⟨hf, e⟩ | ⟨hf, hr, e⟩ | ⟨hf, hr, e⟩
  · simp [e, hf]
  · simp [e, hr]
  · simp [e, hf, hr]

theorem verdictOf?_ne_stuck : a.verdictOf? q ≠ some .stuck := by
  rcases verdictOf?_cases a q with ⟨-, e⟩ | ⟨-, -, e⟩ | ⟨-, -, e⟩ <;> simp [e]

theorem verdictAfter?_eq_some :
    a.verdictAfter? trace = some v ↔ ∃ step, trace.getLast? = some step ∧ a.verdictOf? step.move.state = some v :=
  Option.bind_eq_some_iff

theorem verdictAfter?_eq_none :
    a.verdictAfter? trace = none ↔ ∀ step, trace.getLast? = some step → a.verdictOf? step.move.state = none :=
  Option.bind_eq_none_iff

@[simp] theorem verdictAfter?_snoc (step : Step) :
    a.verdictAfter? (trace ++ [step]) = a.verdictOf? step.move.state := by
  simp [verdictAfter?]

end Automaton

/-! ## What a step keeps -/

/-- What each step keeps: where the trace leads to, and which verdict it gives. -/
structure Judged (a : Automaton) (s : Simulation) : Prop where
  inner : ∀ step ∈ s.trace.dropLast, a.verdictOf? step.move.state = none
  state : s.configuration.state = (s.trace.getLast?.map fun step => step.move.state).getD a.initial
  verdict : s.verdict = a.verdictAfter? s.trace ∨ s.verdict = some .stuck ∧ a.verdictAfter? s.trace = none

namespace Judged

variable {a : Automaton} {s : Simulation}

/-- Without a verdict no target gives one. -/
theorem all_of_pending (h : Judged a s) (hv : s.verdict = none) :
    ∀ step ∈ s.trace, a.verdictOf? step.move.state = none := by
  have hlast : a.verdictAfter? s.trace = none := by
    rcases h.verdict with hj | ⟨hj, -⟩
    · rw [← hj, hv]
    · rw [hv] at hj
      cases hj
  intro step hs
  cases hg : s.trace.getLast? with
  | none =>
    rw [List.getLast?_eq_none_iff.mp hg] at hs
    cases hs
  | some last =>
    obtain ⟨before, hsnoc⟩ := List.getLast?_eq_some_iff.mp hg
    have hinner := h.inner
    rw [hsnoc] at hs hlast hinner
    rw [List.dropLast_concat] at hinner
    rw [Automaton.verdictAfter?_snoc] at hlast
    rcases List.mem_append.mp hs with hs | hs
    · exact hinner step hs
    · rw [List.mem_singleton.mp hs]
      exact hlast

theorem verdict_eq_some (h : Judged a s) {v : Verdict} (hv : v ≠ .stuck) :
    s.verdict = some v ↔ a.verdictAfter? s.trace = some v := by
  rcases h.verdict with hj | ⟨hj, hnone⟩
  · rw [hj]
  · rw [hj, hnone]
    simpa using hv.symm

/-- The trace of a simulation that is stuck gives no verdict. -/
theorem verdictAfter?_of_stuck (h : Judged a s) (hs : s.verdict = some .stuck) : a.verdictAfter? s.trace = none := by
  rcases h.verdict with hj | ⟨-, hnone⟩
  · rw [hs] at hj
    obtain ⟨step, -, hq⟩ := Automaton.verdictAfter?_eq_some.mp hj.symm
    exact absurd hq Automaton.verdictOf?_ne_stuck
  · exact hnone

end Judged

namespace Simulation

variable {a : Automaton} {input : String} {s : Simulation} {j k : Nat}

theorem judged_start (a : Automaton) (input : String) : Judged a (start a input) where
  inner := by simp [start, trace]
  state := rfl
  verdict := Or.inl rfl

/-- What is noted down and the verdict that stands are no part of the trace. -/
theorem judged_step (h : Judged s.automaton s) : Judged s.automaton s.step.2 := by
  rcases step_cases s with ⟨v, -, e⟩ | ⟨hv, -, e⟩ | ⟨m, hv, -, e⟩ <;> rw [e]
  · exact h
  · refine ⟨by simpa using h.inner, by simpa using h.state, Or.inr ⟨rfl, ?_⟩⟩
    rw [trace_settle, trace_note, Automaton.verdictAfter?_eq_none]
    intro step hs
    exact h.all_of_pending hv step (List.mem_of_getLast? hs)
  · refine ⟨?_, ?_, Or.inl ?_⟩
    · rw [trace_settle, trace_take, List.dropLast_concat]
      exact h.all_of_pending hv
    · rw [trace_settle, trace_take, configuration_settle]
      simp [take]
    · rw [trace_settle, trace_take, Automaton.verdictAfter?_snoc, verdict_settle (by simpa using hv)]

theorem judged_after (a : Automaton) (input : String) (k : Nat) : Judged a (after a input k) := by
  induction k with
  | zero => exact judged_start a input
  | succ k ih =>
    have h : Judged (after a input k).automaton (after a input k) := by
      rw [automaton_after]
      exact ih
    have hstep := judged_step h
    rwa [automaton_after] at hstep

/-- A simulation is stuck when one of its steps found no move. -/
theorem stuck_iff :
    (after a input k).verdict = some .stuck ↔
      ∃ j < k, (after a input j).verdict = none ∧ (after a input j).move? = none := by
  refine ⟨?_, ?_⟩
  · intro h
    induction k with
    | zero => cases h
    | succ k ih =>
      rcases step_cases (after a input k) with ⟨v, -, e⟩ | ⟨hv, hm, -⟩ | ⟨m, hv, -, e⟩
      · rw [after, e] at h
        obtain ⟨j, hj, hn⟩ := ih h
        exact ⟨j, by omega, hn⟩
      · exact ⟨k, by omega, hv, hm⟩
      · rw [after, e, verdict_settle (by simpa using hv)] at h
        exact absurd h Automaton.verdictOf?_ne_stuck
  · intro h
    obtain ⟨j, hj, hv, hm⟩ := h
    rw [after_of_no_move hv hm hj]
    rfl

/-- The step that gets stuck found no move, and leaves everything where it is. -/
theorem step_of_stuck (hv : s.verdict = none) (hs : s.step.2.verdict = some .stuck) :
    s.step.2.configuration = s.configuration ∧ s.step.2.trace = s.trace := by
  rcases step_cases s with ⟨v, hsome, -⟩ | ⟨-, -, e⟩ | ⟨m, -, -, e⟩
  · rw [hv] at hsome
    cases hsome
  · rw [e]
    simp
  · rw [e, verdict_settle (by simpa using hv)] at hs
    exact absurd hs Automaton.verdictOf?_ne_stuck

end Simulation

/-! ## What verdicts stand for -/

open Simulation

/-- What stands behind a verdict after `k` steps. -/
def Grounds (a : Automaton) (input : String) (k : Nat) : Verdict → Prop
  | .accepted => ∃ step, (after a input k).trace.getLast? = some step ∧ step.move.state ∈ a.final.keys
  | .rejected => ∃ step, (after a input k).trace.getLast? = some step ∧
      step.move.state ∈ a.rejecting.keys ∧ step.move.state ∉ a.final.keys
  | .stuck =>
    (∀ step, (after a input k).trace.getLast? = some step →
      step.move.state ∉ a.final.keys ∧ step.move.state ∉ a.rejecting.keys) ∧
    ∃ j < k, (after a input j).verdict = none ∧ (after a input j).situation = (after a input k).situation ∧
      a.move? (after a input k).situation = none

/-- The verdict after `k` steps has its grounds, and no step goes on after one. -/
structure Justified (a : Automaton) (input : String) (k : Nat) : Prop where
  verdict : ∀ v, (after a input k).verdict = some v ↔ Grounds a input k v
  pending : (after a input k).verdict = none ↔ ∀ v, ¬ Grounds a input k v
  /-- The next step answers that it halted exactly when it leaves a verdict, and with that
      one. -/
  answer : ∀ v, (after a input k).step.1 = .halted v ↔ Grounds a input (k + 1) v
  answerPending : (after a input k).step.1 = .pending ↔ ∀ v, ¬ Grounds a input (k + 1) v
  /-- Only the last step may enter a final or a rejecting state. -/
  inner : ∀ step ∈ (after a input k).trace.dropLast,
    step.move.state ∉ a.final.keys ∧ step.move.state ∉ a.rejecting.keys
  state : (after a input k).configuration.state =
    ((after a input k).trace.getLast?.map fun step => step.move.state).getD a.initial
  /-- A step that gets stuck leaves everything where it is. -/
  stuck : (after a input k).verdict = none → (after a input k).step.1 = .halted .stuck →
    (after a input k).step.2.configuration = (after a input k).configuration ∧
      (after a input k).step.2.trace = (after a input k).trace
  /-- Each step after a verdict answers that verdict, and what it leaves is what was there. -/
  halted : ∀ v, (after a input k).verdict = some v → ∀ n, k ≤ n →
    after a input n = after a input k ∧ (after a input n).step = (.halted v, after a input k)

variable {a : Automaton} {input : String} {k : Nat}

theorem grounds_of_stuck (h : (after a input k).verdict = some .stuck) : Grounds a input k .stuck := by
  have hlast := (judged_after a input k).verdictAfter?_of_stuck h
  refine ⟨?_, ?_⟩
  · intro step hs
    exact Automaton.verdictOf?_eq_none.mp (Automaton.verdictAfter?_eq_none.mp hlast step hs)
  · obtain ⟨j, hj, hv, hm⟩ := stuck_iff.mp h
    have hsame : (after a input j).situation = (after a input k).situation := by
      rw [after_of_no_move hv hm hj, situation_settle, situation_note]
    rw [move?_after, hsame] at hm
    exact ⟨j, hj, hv, hsame, hm⟩

theorem stuck_of_grounds (h : Grounds a input k .stuck) : (after a input k).verdict = some .stuck := by
  obtain ⟨-, j, hj, hv, hsame, hm⟩ := h
  rw [← hsame, ← move?_after] at hm
  exact stuck_iff.mpr ⟨j, hj, hv, hm⟩

theorem verdict_eq_some_iff_grounds (v : Verdict) : (after a input k).verdict = some v ↔ Grounds a input k v := by
  have hj := judged_after a input k
  cases v with
  | accepted =>
    rw [hj.verdict_eq_some (by simp), Automaton.verdictAfter?_eq_some]
    simp only [Automaton.verdictOf?_eq_accepted, Grounds]
  | rejected =>
    rw [hj.verdict_eq_some (by simp), Automaton.verdictAfter?_eq_some]
    simp only [Automaton.verdictOf?_eq_rejected, Grounds]
  | stuck => exact ⟨grounds_of_stuck, stuck_of_grounds⟩

theorem verdict_eq_none_iff_grounds : (after a input k).verdict = none ↔ ∀ v, ¬ Grounds a input k v := by
  rw [Option.eq_none_iff_forall_ne_some]
  exact forall_congr' fun v => not_congr (verdict_eq_some_iff_grounds v)

/-- After any number of steps on any input the verdict has its grounds, and is final. -/
theorem justified_after (a : Automaton) (input : String) (k : Nat) : Justified a input k where
  verdict := verdict_eq_some_iff_grounds
  pending := verdict_eq_none_iff_grounds
  answer := by
    intro v
    rw [answer_step, Progress.of_eq_halted]
    exact @verdict_eq_some_iff_grounds a input (k + 1) v
  answerPending := by
    rw [answer_step, Progress.of_eq_pending]
    exact @verdict_eq_none_iff_grounds a input (k + 1)
  inner := by
    intro step hs
    exact Automaton.verdictOf?_eq_none.mp ((judged_after a input k).inner step hs)
  state := (judged_after a input k).state
  stuck := by
    intro hv hs
    rw [answer_step, Progress.of_eq_halted] at hs
    exact step_of_stuck hv hs
  halted := by
    intro v hv n hn
    exact ⟨after_of_verdict hv hn, step_after_of_verdict hv hn⟩

end Pushdown
