/-
  Pushdown.Proofs.Run.Agreement — three ways to run an input, and one result.

  A run without a bound and a run with one both take the steps of a simulation. What they
  answer is told by those steps alone: the run without a bound ends exactly with a verdict
  that some number of steps reaches (`run_eq_some`); a run that may take `m` moves ends
  with the verdict whose trace is no longer than that (`runBounded_eq_ok`), and gives up
  exactly when `m` moves were taken, there is no verdict and there is yet another move
  (`runBounded_eq_error`). To find that there is no move, or to enter a final state, with
  the last move allowed is no reason to give up.

  `Turns` is a run with a bound turn by turn: before each step it gives up or not, after
  each step it ends or not. Every derivation of it is finite, so that `turns_runBounded`
  also says that the run ends. `runs_agree` puts all of this together.
-/

import Pushdown.Proofs.Simulation.Step
import Pushdown.Run

namespace Pushdown

namespace Simulation

/-! ## The verdict of a number of steps -/

section Finish

variable {a : Automaton} {input : String} {j k : Nat} {r r' : Run} {s : Simulation}

theorem finish_eq_none : s.finish = none ↔ s.verdict = none := Option.map_eq_none_iff

/-- What a simulation with a verdict is taken for. -/
theorem finish_eq_some :
    s.finish = some r ↔ s.verdict = some r.verdict ∧ s.trace = r.trace ∧ s.configuration = r.configuration := by
  rw [finish, Option.map_eq_some_iff]
  refine ⟨?_, ?_⟩
  · intro h
    obtain ⟨v, hv, rfl⟩ := h
    exact ⟨hv, rfl, rfl⟩
  · intro h
    obtain ⟨hv, ht, hc⟩ := h
    refine ⟨r.verdict, hv, ?_⟩
    rw [toRun, ht, hc]

theorem finish_of_verdict {v : Verdict} (h : s.verdict = some v) : s.finish = some (s.toRun v) := by
  rw [finish, h]
  rfl

theorem finish_after_of_le (h : (after a input j).finish = some r) (hjk : j ≤ k) : (after a input k).finish = some r := by
  rw [after_of_verdict (finish_eq_some.mp h).1 hjk]
  exact h

theorem finish_unique (h : (after a input j).finish = some r) (h' : (after a input k).finish = some r') : r = r' := by
  rcases Nat.le_total j k with hjk | hkj
  · exact Option.some.inj ((finish_after_of_le h hjk).symm.trans h')
  · exact Option.some.inj (h.symm.trans (finish_after_of_le h' hkj))

end Finish

/-! ## Without a bound -/

section Unbounded

variable {a : Automaton} {input : String} {t : Simulation}

theorem reaches_after {k : Nat} (h : (after a input k).verdict = none) : (start a input).Reaches (after a input k) := by
  induction k with
  | zero => exact .refl
  | succ k ih => exact .step (ih (verdict_none_of_le h (Nat.le_succ k))) (step_eq_pending.mpr ⟨rfl, h⟩)

theorem after_of_reaches (h : (start a input).Reaches t) : ∃ k, after a input k = t := by
  induction h with
  | refl => exact ⟨0, rfl⟩
  | step _ hstep ih =>
    obtain ⟨k, rfl⟩ := ih
    exact ⟨k + 1, (step_eq_pending.mp hstep).1⟩

/-- A run without a bound is what a halted simulation is taken for, with its journal. -/
theorem untilVerdict_start {recorded : Recorded Run} :
    (start a input).untilVerdict = some recorded ↔
      ∃ k, (after a input k).finish = some recorded.result ∧ (after a input k).journal = recorded.journal := by
  rw [untilVerdict_eq_some]
  refine ⟨?_, ?_⟩
  · intro h
    obtain ⟨t, v, u, ht, hstep, rfl⟩ := h
    obtain ⟨k, rfl⟩ := after_of_reaches ht
    obtain ⟨rfl, hv⟩ := step_eq_halted.mp hstep
    exact ⟨k + 1, finish_of_verdict hv, rfl⟩
  · intro h
    obtain ⟨k, hf, hjournal⟩ := h
    obtain ⟨v, hv, hrun⟩ := Option.map_eq_some_iff.mp hf
    obtain ⟨j, -, hpending, hstep⟩ := exists_step_of_verdict hv
    refine ⟨_, v, _, reaches_after hpending, hstep, ?_⟩
    rw [hrun, hjournal]

end Unbounded

end Simulation

open Simulation

theorem run_eq_some {a : Automaton} {input : String} {r : Run} :
    a.run input = some r ↔ ∃ k, (after a input k).finish = some r := by
  rw [Automaton.run, Option.map_eq_some_iff]
  refine ⟨?_, ?_⟩
  · intro h
    obtain ⟨recorded, hr, rfl⟩ := h
    obtain ⟨k, hf, -⟩ := untilVerdict_start.mp hr
    exact ⟨k, hf⟩
  · intro h
    obtain ⟨k, hk⟩ := h
    exact ⟨⟨r, (after a input k).journal⟩, untilVerdict_start.mpr ⟨k, hk, rfl⟩, rfl⟩

/-! ## With a bound -/

/-- What the turns of a run with a bound come to. Before a step it gives up if as many
    moves as it may take were taken and there is yet another; it ends with a step that
    answers that it halted. -/
inductive Turns (limit : Nat) : Simulation → Except StepLimitExceeded Run → Prop
  | exceeded {s : Simulation} : limit ≤ s.trace.length → s.move? ≠ none → Turns limit s (.error ⟨limit⟩)
  | ended {s t : Simulation} {v : Verdict} : s.trace.length < limit ∨ s.move? = none → s.step = (.halted v, t) →
      Turns limit s (.ok ⟨v, t.trace, t.configuration⟩)
  | turn {s t : Simulation} {outcome : Except StepLimitExceeded Run} : s.trace.length < limit ∨ s.move? = none →
      s.step = (.pending, t) → Turns limit t outcome → Turns limit s outcome

section Bounded

variable {a : Automaton} {input : String} {limit k : Nat} {r : Run} {outcome : Except StepLimitExceeded Run}

/-- A run with a bound takes its turns, and comes to an end. -/
theorem turns_untilVerdictWithin (limit : Nat) (s : Simulation) : Turns limit s (s.untilVerdictWithin limit).result := by
  have hgo : ∀ {s : Simulation}, ¬(limit ≤ s.past.size ∧ s.move?.isSome = true) →
      s.trace.length < limit ∨ s.move? = none := by
    intro s hnot
    by_cases hlimit : limit ≤ s.past.size
    · exact .inr (by simpa [hlimit] using hnot)
    · exact .inl (Nat.lt_of_not_le hlimit)
  fun_induction untilVerdictWithin limit s with
  | case1 s hlimit => exact .exceeded hlimit.1 (Option.isSome_iff_ne_none.mp hlimit.2)
  | case2 s hnot v t hstep => exact .ended (hgo hnot) hstep
  | case3 s hnot t hstep ih => exact .turn (hgo hnot) hstep ih

/-- What turns come to is told by the steps: a verdict whose trace is within the limit,
    after at most one step more than moves, or a simulation that could go on at the limit. -/
theorem turns_cases {s : Simulation} (h : Turns limit s outcome) (hs : after a input k = s)
    (hv : (after a input k).verdict = none) (hk : k ≤ limit) :
    (∃ j ≤ limit + 1, ∃ r, outcome = .ok r ∧ (after a input j).finish = some r ∧ r.trace.length ≤ limit) ∨
      outcome = .error ⟨limit⟩ ∧ (after a input limit).verdict = none ∧ (after a input limit).move? ≠ none := by
  induction h generalizing k with
  | exceeded hlimit hm =>
    subst hs
    rw [length_trace_after hv] at hlimit
    obtain rfl : k = limit := by omega
    exact Or.inr ⟨rfl, hv, hm⟩
  | ended hgo hstep =>
    subst hs
    obtain ⟨rfl, hverdict⟩ := step_eq_halted.mp hstep
    refine Or.inl ⟨k + 1, by omega, _, rfl, finish_of_verdict hverdict, ?_⟩
    rcases hgo with hlimit | hm
    · rw [length_trace_after hv] at hlimit
      exact Nat.le_trans (length_trace_le (k + 1)) hlimit
    · rw [step_of_no_move hv hm, trace_settle, trace_note, length_trace_after hv]
      exact hk
  | turn hgo hstep _ ih =>
    subst hs
    obtain ⟨rfl, hv'⟩ := step_eq_pending.mp hstep
    obtain ⟨m, -, hm, -⟩ := step_of_pending hv'
    rcases hgo with hlimit | hnone
    · rw [length_trace_after hv] at hlimit
      exact ih (k := k + 1) rfl hv' hlimit
    · rw [hm] at hnone
      cases hnone

/-- A verdict whose trace is within the limit was reached before the limit could be in
    its way. -/
theorem move?_eq_none_of_finish (hf : (after a input k).finish = some r) (hr : r.trace.length ≤ limit)
    (hv : (after a input limit).verdict = none) : (after a input limit).move? = none := by
  cases hm : (after a input limit).move? with
  | none => rfl
  | some m =>
    have hlonger : (after a input (limit + 1)).trace.length = limit + 1 := by
      rw [after, trace_step_of_move hv hm, List.length_append, length_trace_after hv]
      rfl
    have hk : limit < k := by
      apply Nat.lt_of_not_le
      intro hle
      have hv' := verdict_none_of_le hv hle
      rw [finish_eq_none.mpr hv'] at hf
      cases hf
    have hmono : (after a input (limit + 1)).trace.length ≤ (after a input k).trace.length := length_trace_mono hk
    rw [(finish_eq_some.mp hf).2.1] at hmono
    omega

theorem turns_runBounded (a : Automaton) (input : String) (limit : Nat) :
    Turns limit (start a input) (a.runBounded input limit) :=
  turns_untilVerdictWithin limit (start a input)

theorem runBounded_cases (a : Automaton) (input : String) (limit : Nat) :
    (∃ k ≤ limit + 1, ∃ r, a.runBounded input limit = .ok r ∧ (after a input k).finish = some r ∧
      r.trace.length ≤ limit) ∨
    a.runBounded input limit = .error ⟨limit⟩ ∧ (after a input limit).verdict = none ∧
      (after a input limit).move? ≠ none :=
  turns_cases (k := 0) (turns_runBounded a input limit) rfl rfl (Nat.zero_le _)

theorem runBounded_eq_ok :
    a.runBounded input limit = .ok r ↔ ∃ k, (after a input k).finish = some r ∧ r.trace.length ≤ limit := by
  rcases runBounded_cases a input limit with ⟨k, -, r', e, hf, hr⟩ | ⟨e, hv, hm⟩
  · rw [e]
    refine ⟨?_, ?_⟩
    · intro h
      cases h
      exact ⟨k, hf, hr⟩
    · intro h
      obtain ⟨k', hf', -⟩ := h
      rw [finish_unique hf hf']
  · rw [e]
    refine iff_of_false (by simp) ?_
    intro h
    obtain ⟨k, hf, hr⟩ := h
    exact hm (move?_eq_none_of_finish hf hr hv)

theorem runBounded_eq_error {e : StepLimitExceeded} :
    a.runBounded input limit = .error e ↔
      e = ⟨limit⟩ ∧ (after a input limit).verdict = none ∧ (after a input limit).move? ≠ none := by
  rcases runBounded_cases a input limit with ⟨k, -, r, e', hf, hr⟩ | ⟨e', hv, hm⟩
  · rw [e']
    refine iff_of_false (by simp) ?_
    intro h
    obtain ⟨-, hv, hm⟩ := h
    exact hm (move?_eq_none_of_finish hf hr hv)
  · rw [e']
    refine ⟨?_, ?_⟩
    · intro h
      cases h
      exact ⟨rfl, hv, hm⟩
    · intro h
      rw [h.1]

/-- The turns come to what the run answers, and to nothing else. -/
theorem turns_iff : Turns limit (start a input) outcome ↔ a.runBounded input limit = outcome := by
  refine ⟨?_, ?_⟩
  · intro h
    rcases turns_cases (k := 0) h rfl rfl (Nat.zero_le _) with ⟨k, -, r, rfl, hf, hr⟩ | ⟨rfl, hv, hm⟩
    · exact runBounded_eq_ok.mpr ⟨k, hf, hr⟩
    · exact runBounded_eq_error.mpr ⟨rfl, hv, hm⟩
  · intro h
    rw [← h]
    exact turns_runBounded a input limit

/-! ### Runs with different bounds, and without -/

theorem run_of_runBounded (h : a.runBounded input limit = .ok r) : a.run input = some r := by
  obtain ⟨k, hf, -⟩ := runBounded_eq_ok.mp h
  exact run_eq_some.mpr ⟨k, hf⟩

/-- With a bound or without, a run is what some number of steps comes to. -/
theorem exists_after_of_runWithin {bound : Option Nat} (h : a.runWithin bound input = some (.ok r)) :
    ∃ k, (after a input k).finish = some r := by
  cases bound with
  | none =>
    obtain ⟨r', hr, hok⟩ := Option.map_eq_some_iff.mp h
    cases hok
    exact run_eq_some.mp hr
  | some limit => exact run_eq_some.mp (run_of_runBounded (Option.some.inj h))

theorem runWithin_of_finish (h : (after a input k).finish = some r) (hlimit : r.trace.length ≤ limit) :
    a.runWithin (some limit) input = some (.ok r) :=
  congrArg some (runBounded_eq_ok.mpr ⟨k, h, hlimit⟩)

theorem runBounded_of_run (h : a.run input = some r) : a.runBounded input r.trace.length = .ok r := by
  obtain ⟨k, hf⟩ := run_eq_some.mp h
  exact runBounded_eq_ok.mpr ⟨k, hf, Nat.le_refl _⟩

/-- Halted steps give what the run answers, however many they are. -/
theorem finish_of_runBounded (h : a.runBounded input limit = .ok r) (hv : (after a input k).verdict ≠ none) :
    (after a input k).finish = some r := by
  obtain ⟨j, hf, -⟩ := runBounded_eq_ok.mp h
  obtain ⟨v, hsome⟩ := Option.ne_none_iff_exists'.mp hv
  have hk := finish_of_verdict hsome
  rw [hk, finish_unique hk hf]

theorem runBounded_mono {limit' : Nat} (h : a.runBounded input limit = .ok r) (hle : limit ≤ limit') :
    a.runBounded input limit' = .ok r := by
  obtain ⟨k, hf, hr⟩ := runBounded_eq_ok.mp h
  exact runBounded_eq_ok.mpr ⟨k, hf, Nat.le_trans hr hle⟩

theorem runBounded_of_lt (h : a.run input = some r) (hlt : limit < r.trace.length) :
    a.runBounded input limit = .error ⟨limit⟩ := by
  obtain ⟨k, hf⟩ := run_eq_some.mp h
  rcases runBounded_cases a input limit with ⟨j, -, r', -, hf', hr'⟩ | ⟨e, -⟩
  · rw [finish_unique hf' hf] at hr'
    omega
  · exact e

end Bounded

/-! ## How the three go together -/

/-- The runs of an input, with any bound and without, are its steps. -/
structure Agreement (a : Automaton) (input : String) : Prop where
  /-- A run with a bound is its turns, which come to an end. -/
  turns : ∀ limit outcome, Turns limit (start a input) outcome ↔ a.runBounded input limit = outcome
  ok : ∀ limit r, a.runBounded input limit = .ok r ↔
    ∃ k, (after a input k).finish = some r ∧ r.trace.length ≤ limit
  /-- It answers what halted steps give, however many they are, and what a run without a
      bound gives. -/
  same : ∀ limit r, a.runBounded input limit = .ok r →
    (∀ k, (after a input k).verdict ≠ none → (after a input k).finish = some r) ∧ a.run input = some r
  exceeded : ∀ limit e, a.runBounded input limit = .error e ↔ e = ⟨limit⟩ ∧
    (after a input limit).trace.length = limit ∧ (after a input limit).verdict = none ∧
      ∃ m, (after a input limit).move? = some m
  mono : ∀ limit r, a.runBounded input limit = .ok r → ∀ limit', limit ≤ limit' → a.runBounded input limit' = .ok r
  /-- The length of the trace is the least bound that will do. -/
  least : ∀ limit r, a.runBounded input limit = .ok r →
    ∀ limit', limit' < r.trace.length → a.runBounded input limit' = .error ⟨limit'⟩
  unbounded : ∀ r, a.run input = some r ↔ ∃ limit, a.runBounded input limit = .ok r

theorem runs_agree (a : Automaton) (input : String) : Agreement a input where
  turns limit outcome := turns_iff
  ok limit r := runBounded_eq_ok
  same := by
    intro limit r h
    exact ⟨fun k hv => finish_of_runBounded h hv, run_of_runBounded h⟩
  exceeded := by
    intro limit e
    rw [runBounded_eq_error, Option.ne_none_iff_exists']
    refine and_congr_right fun _ => ?_
    exact ⟨fun h => ⟨length_trace_after h.1, h⟩, fun h => h.2⟩
  mono := by
    intro limit r h limit' hle
    exact runBounded_mono h hle
  least := by
    intro limit r h limit' hlt
    exact runBounded_of_lt (run_of_runBounded h) hlt
  unbounded := by
    intro r
    refine ⟨?_, ?_⟩
    · intro h
      exact ⟨r.trace.length, runBounded_of_run h⟩
    · intro h
      obtain ⟨limit, hr⟩ := h
      exact run_of_runBounded hr

end Pushdown
