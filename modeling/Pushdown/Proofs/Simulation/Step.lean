/-
  Pushdown.Proofs.Simulation.Step — what one step of a simulation does.

  `step_cases` is all there is to what a step leaves: after a verdict nothing changes;
  without a move the verdict is that the run is stuck; a move is taken and its target may
  end the run. What a step answers is the verdict that it leaves (`answer_step`). What it
  notes down and how it ends a run leave the configuration, the trace and the rest of the
  input alone, and the frame lemmas say so.

  Over many steps a verdict stays, with all that it was reached with (`after_of_verdict`),
  and until there is one each step takes a move (`length_trace_after`). Every verdict was
  answered by the step that brought it (`exists_step_of_verdict`).
-/

import Pushdown.Simulation

namespace Pushdown

/-- The verdict that entering a state gives, if it ends a run: final wins. -/
def Automaton.verdictOf? (a : Automaton) (q : State) : Option Verdict :=
  if a.isFinal q then some .accepted
  else if a.isRejecting q then some .rejected
  else none

namespace Progress

/-- What is answered where there is this verdict, or none. -/
def of : Option Verdict → Progress
  | none => pending
  | some v => halted v

theorem of_eq_pending {v : Option Verdict} : of v = pending ↔ v = none := by
  cases v <;> simp [of]

theorem of_eq_halted {v : Option Verdict} {w : Verdict} : of v = halted w ↔ v = some w := by
  cases v <;> simp [of]

end Progress

namespace Simulation

/-- Ends with a verdict, if there is one. -/
def settle (s : Simulation) : Option Verdict → Simulation
  | none => s
  | some v => (s.halt v).2

/-- The simulation of an input after a number of steps. -/
def after (a : Automaton) (input : String) : Nat → Simulation
  | 0 => start a input
  | k + 1 => (after a input k).step.2

/-! ## Notes and verdicts change nothing else -/

@[simp] theorem automaton_note (s : Simulation) (e : Event) : (s.note e).automaton = s.automaton := rfl
@[simp] theorem automaton_take (s : Simulation) (m : Move) : (s.take m).automaton = s.automaton := rfl
@[simp] theorem situation_note (s : Simulation) (e : Event) : (s.note e).situation = s.situation := rfl
@[simp] theorem unread_note (s : Simulation) (e : Event) : (s.note e).unread = s.unread := rfl
@[simp] theorem configuration_note (s : Simulation) (e : Event) :
    (s.note e).configuration = s.configuration := rfl
@[simp] theorem trace_note (s : Simulation) (e : Event) : (s.note e).trace = s.trace := rfl

@[simp] theorem verdict_note (s : Simulation) (e : Event) : (s.note e).verdict = s.verdict := rfl
@[simp] theorem verdict_take (s : Simulation) (m : Move) : (s.take m).verdict = s.verdict := rfl

@[simp] theorem automaton_settle (s : Simulation) (v : Option Verdict) :
    (s.settle v).automaton = s.automaton := by
  cases v <;> rfl

@[simp] theorem unread_settle (s : Simulation) (v : Option Verdict) : (s.settle v).unread = s.unread := by
  cases v <;> rfl

@[simp] theorem configuration_settle (s : Simulation) (v : Option Verdict) :
    (s.settle v).configuration = s.configuration := by
  cases v <;> rfl

@[simp] theorem situation_settle (s : Simulation) (v : Option Verdict) :
    (s.settle v).situation = s.situation := by
  cases v <;> rfl

@[simp] theorem trace_settle (s : Simulation) (v : Option Verdict) : (s.settle v).trace = s.trace := by
  cases v <;> rfl

theorem verdict_settle {s : Simulation} (h : s.verdict = none) (v : Option Verdict) :
    (s.settle v).verdict = v := by
  cases v with
  | none => exact h
  | some v => rfl

@[simp] theorem trace_take (s : Simulation) (m : Move) : (s.take m).trace = s.trace ++ [⟨s.situation, m⟩] := by
  simp [take, trace]

/-! ## One step -/

theorem step_cases (s : Simulation) :
    (∃ v, s.verdict = some v ∧ s.step.2 = s) ∨
    (s.verdict = none ∧ s.move? = none ∧
      s.step.2 = (s.note (.noMove s.situation)).settle (some .stuck)) ∨
    ∃ m, s.verdict = none ∧ s.move? = some m ∧
      s.step.2 = ((s.note (.moved ⟨s.situation, m⟩)).take m).settle (s.automaton.verdictOf? m.state) := by
  unfold step
  cases hv : s.verdict with
  | some v => exact Or.inl ⟨v, rfl, rfl⟩
  | none =>
    right
    cases hm : s.move? with
    | none => exact Or.inl ⟨rfl, rfl, rfl⟩
    | some m =>
      refine Or.inr ⟨m, rfl, rfl, ?_⟩
      simp only [Automaton.verdictOf?]
      split
      · rfl
      · split <;> rfl

/-- A step answers with the verdict that it leaves. -/
theorem answer_step (s : Simulation) : s.step.1 = .of s.step.2.verdict := by
  unfold step
  split
  · next v hv => simp only [hv, Progress.of]
  · next hv =>
    split
    · rfl
    · next m _ =>
      have hnext : ((s.note (.moved ⟨s.situation, m⟩)).take m).verdict = none := hv
      split
      · rfl
      · split
        · rfl
        · simp only [hnext, Progress.of]

theorem step_eq (s : Simulation) : s.step = (.of s.step.2.verdict, s.step.2) := by
  rw [← answer_step]

theorem step_eq_pending {s t : Simulation} : s.step = (.pending, t) ↔ s.step.2 = t ∧ t.verdict = none := by
  rw [step_eq, Prod.mk.injEq, Progress.of_eq_pending, and_comm]
  refine and_congr_right ?_
  rintro rfl
  rfl

theorem step_eq_halted {s t : Simulation} {v : Verdict} :
    s.step = (.halted v, t) ↔ s.step.2 = t ∧ t.verdict = some v := by
  rw [step_eq, Prod.mk.injEq, Progress.of_eq_halted, and_comm]
  refine and_congr_right ?_
  rintro rfl
  rfl

/-- After a step that brings no verdict, a move was taken and its target ends nothing. -/
theorem step_of_pending {s : Simulation} (h : s.step.2.verdict = none) :
    ∃ m, s.verdict = none ∧ s.move? = some m ∧ s.automaton.verdictOf? m.state = none ∧
      s.step.2 = (s.note (.moved ⟨s.situation, m⟩)).take m := by
  rcases step_cases s with ⟨v, hv, e⟩ | ⟨hv, -, e⟩ | ⟨m, hv, hm, e⟩
  · rw [e, hv] at h
    cases h
  · rw [e] at h
    cases h
  · rw [e, verdict_settle (by simpa using hv)] at h
    rw [h] at e
    exact ⟨m, hv, hm, h, e⟩

theorem step_of_no_move {s : Simulation} (hv : s.verdict = none) (hm : s.move? = none) :
    s.step.2 = (s.note (.noMove s.situation)).settle (some .stuck) := by
  simp only [step, hv, hm]
  rfl

theorem step_of_move {s : Simulation} {m : Move} (hv : s.verdict = none) (hm : s.move? = some m) :
    s.step.2 = ((s.note (.moved ⟨s.situation, m⟩)).take m).settle (s.automaton.verdictOf? m.state) := by
  rcases step_cases s with ⟨v, hsome, -⟩ | ⟨-, hnone, -⟩ | ⟨m', -, hm', e⟩
  · rw [hv] at hsome
    cases hsome
  · rw [hm] at hnone
    cases hnone
  · obtain rfl : m = m' := Option.some.inj (hm.symm.trans hm')
    exact e

theorem trace_step_of_move {s : Simulation} {m : Move} (hv : s.verdict = none) (hm : s.move? = some m) :
    s.step.2.trace = s.trace ++ [⟨s.situation, m⟩] := by
  rw [step_of_move hv hm]
  simp

theorem length_trace_step (s : Simulation) :
    s.trace.length ≤ s.step.2.trace.length ∧ s.step.2.trace.length ≤ s.trace.length + 1 := by
  rcases step_cases s with ⟨v, -, e⟩ | ⟨-, -, e⟩ | ⟨m, -, -, e⟩ <;> rw [e]
  · omega
  · simp
  · simp

/-- With a verdict a step answers it and changes nothing. -/
theorem step_of_verdict {s : Simulation} {v : Verdict} (h : s.verdict = some v) : s.step = (.halted v, s) := by
  simp only [step, h]

@[simp] theorem automaton_step (s : Simulation) : s.step.2.automaton = s.automaton := by
  rcases step_cases s with ⟨v, -, e⟩ | ⟨-, -, e⟩ | ⟨m, -, -, e⟩ <;> rw [e]
  · simp
  · simp

@[simp] theorem automaton_after (a : Automaton) (input : String) (k : Nat) :
    (after a input k).automaton = a := by
  induction k with
  | zero => rfl
  | succ k ih => rw [after, automaton_step, ih]

/-! ## Many steps -/

section After

variable {a : Automaton} {input : String} {j k : Nat}

theorem move?_after (k : Nat) : (after a input k).move? = a.move? (after a input k).situation := by
  rw [move?, automaton_after]

/-- With a verdict everything stays as it is. -/
theorem after_of_verdict {v : Verdict} (h : (after a input j).verdict = some v) (hjk : j ≤ k) :
    after a input k = after a input j := by
  induction hjk with
  | refl => rfl
  | step _ ih => rw [after, ih, step_of_verdict h]

/-- With a verdict every further step answers it. -/
theorem step_after_of_verdict {v : Verdict} (h : (after a input j).verdict = some v) (hjk : j ≤ k) :
    (after a input k).step = (.halted v, after a input j) := by
  rw [after_of_verdict h hjk, step_of_verdict h]

theorem verdict_none_of_le (h : (after a input k).verdict = none) (hjk : j ≤ k) :
    (after a input j).verdict = none := by
  cases hv : (after a input j).verdict with
  | none => rfl
  | some v =>
    rw [after_of_verdict hv hjk, hv] at h
    cases h

/-- A verdict came with the answer of a step. -/
theorem exists_step_of_verdict {v : Verdict} (h : (after a input k).verdict = some v) :
    ∃ j < k, (after a input j).verdict = none ∧ (after a input j).step = (.halted v, after a input k) := by
  induction k with
  | zero => cases h
  | succ k ih =>
    cases hv : (after a input k).verdict with
    | none => exact ⟨k, Nat.lt_succ_self k, hv, step_eq_halted.mpr ⟨rfl, h⟩⟩
    | some w =>
      have hsame : after a input (k + 1) = after a input k := after_of_verdict hv (Nat.le_succ k)
      rw [hsame] at h ⊢
      obtain ⟨j, hj, hstep⟩ := ih h
      exact ⟨j, Nat.lt_succ_of_lt hj, hstep⟩

/-- Once a step finds no move, nothing but the verdict changes. -/
theorem after_of_no_move (hv : (after a input j).verdict = none) (hm : (after a input j).move? = none) (hjk : j < k) :
    after a input k = ((after a input j).note (.noMove (after a input j).situation)).settle (some .stuck) := by
  have hstep : after a input (j + 1) = _ := step_of_no_move hv hm
  have hstuck : (after a input (j + 1)).verdict = some .stuck := by
    rw [hstep]
    rfl
  rw [after_of_verdict hstuck hjk, hstep]

/-- Without a verdict each step took a move. -/
theorem length_trace_after (h : (after a input k).verdict = none) : (after a input k).trace.length = k := by
  induction k with
  | zero => rfl
  | succ k ih =>
    obtain ⟨m, hv, -, -, e⟩ := step_of_pending h
    rw [after, e, trace_take, trace_note, List.length_append, ih hv]
    rfl

theorem length_trace_le (k : Nat) : (after a input k).trace.length ≤ k := by
  induction k with
  | zero => exact Nat.le_refl _
  | succ k ih =>
    have hstep := (length_trace_step (after a input k)).2
    rw [after]
    omega

theorem length_trace_mono (hjk : j ≤ k) : (after a input j).trace.length ≤ (after a input k).trace.length := by
  induction hjk with
  | refl => exact Nat.le_refl _
  | step _ ih => exact Nat.le_trans ih (length_trace_step _).1

end After

end Simulation

end Pushdown
