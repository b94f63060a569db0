/-
  Pushdown.Run — inputs run to a verdict, with a bound on the moves or without.

  Both take steps until one answers that it halted. An automaton may go on for ever at the
  end of an input: a run without a bound is then `none` (`untilVerdict_eq_some`). A run with
  a bound looks for the next move before each step, and gives up once that many were taken
  and there is yet another. A step that goes on took a move, so that it always ends.
-/

import Pushdown.Simulation

namespace Pushdown

/-- A run was given up after its bound on the moves. -/
structure StepLimitExceeded where
  limit : Nat
  deriving DecidableEq, Repr

def StepLimitExceeded.message (e : StepLimitExceeded) : String :=
  "no verdict after " ++ Nat.repr e.limit ++ " steps"

namespace Simulation

/-! ## Without a bound -/

/-- Steps taken while they answer that the simulation goes on. -/
inductive Reaches (s : Simulation) : Simulation → Prop
  | refl : Reaches s s
  | step {t u : Simulation} : Reaches s t → t.step = (.pending, u) → Reaches s u

/-- A step that halts, behind steps that go on. -/
structure Ending (s : Simulation) where
  before : Simulation
  reached : s.Reaches before
  verdict : Verdict
  last : Simulation
  step_eq : before.step = (.halted verdict, last)

def Ending.recorded {s : Simulation} (e : s.Ending) : Recorded Run := ⟨e.last.toRun e.verdict, e.last.journal⟩

/-- One turn of a run without a bound: a step, and the end if it halts. -/
def turn (s : Simulation) (t : { t // s.Reaches t }) : Option ({ t // s.Reaches t } ⊕ Option s.Ending) :=
  match h : t.1.step with
  | (.halted v, u) => some (.inr (some ⟨t.1, t.2, v, u, h⟩))
  | (.pending, u) => some (.inl ⟨u, .step t.2 h⟩)

/-- Steps until one halts; none when none ever does (`untilVerdict_eq_some`). The loop
    hands on how it came to where it is, so it can only end with what it reached. -/
def untilVerdict (s : Simulation) : Option (Recorded Run) :=
  (repeatM s.turn ⟨s, .refl⟩).join.map Ending.recorded

theorem turn_of_halted {s t u : Simulation} {v : Verdict} (ht : s.Reaches t) (h : t.step = (.halted v, u)) :
    s.turn ⟨t, ht⟩ = some (.inr (some ⟨t, ht, v, u, h⟩)) := by
  unfold turn
  split
  · next h' =>
    cases h'.symm.trans h
    rfl
  · next h' => cases h'.symm.trans h

theorem turn_of_pending {s t u : Simulation} (ht : s.Reaches t) (h : t.step = (.pending, u)) :
    s.turn ⟨t, ht⟩ = some (.inl ⟨u, .step ht h⟩) := by
  unfold turn
  split
  · next h' => cases h'.symm.trans h
  · next h' =>
    cases h'.symm.trans h
    rfl

/-- The loop is where its steps lead. -/
theorem repeatM_turn {s t : Simulation} (h : s.Reaches t) :
    repeatM s.turn ⟨s, .refl⟩ = repeatM s.turn ⟨t, h⟩ := by
  induction h with
  | refl => rfl
  | step ht hstep ih =>
    rw [ih, repeatM_eq_of_monadTail, repeatM.body, turn_of_pending ht hstep]
    rfl

/-- A run without a bound ends with the first step that halts, and does not end when none
    does. -/
theorem untilVerdict_eq_some {s : Simulation} {r : Recorded Run} :
    s.untilVerdict = some r ↔
      ∃ t v u, s.Reaches t ∧ t.step = (.halted v, u) ∧ r = ⟨u.toRun v, u.journal⟩ := by
  unfold untilVerdict
  refine ⟨?_, ?_⟩
  · intro h
    obtain ⟨e, -, rfl⟩ := Option.map_eq_some_iff.mp h
    exact ⟨e.before, e.verdict, e.last, e.reached, e.step_eq, rfl⟩
  · intro h
    obtain ⟨t, v, u, ht, hstep, rfl⟩ := h
    rw [repeatM_turn ht, repeatM_eq_of_monadTail, repeatM.body, turn_of_halted ht hstep]
    rfl

/-! ## With a bound -/

/-- A step that goes on took a move. -/
theorem past_of_pending {s t : Simulation} (h : s.step = (.pending, t)) :
    s.move?.isSome = true ∧ t.past.size = s.past.size + 1 := by
  unfold step halt at h
  split at h
  · cases h
  · split at h
    · cases h
    · next m hm =>
      split at h
      · cases h
      · split at h
        · cases h
        · cases h
          exact ⟨by rw [hm]; rfl, Array.size_push _⟩

/-- Steps until one halts, unless `limit` moves were taken and there is yet another. -/
def untilVerdictWithin (limit : Nat) (s : Simulation) : Recorded (Except StepLimitExceeded Run) :=
  if _hlimit : limit ≤ s.past.size ∧ s.move?.isSome then ⟨.error ⟨limit⟩, s.journal⟩
  else
    match _h : s.step with
    | (.halted v, t) => ⟨.ok (t.toRun v), t.journal⟩
    | (.pending, t) => untilVerdictWithin limit t
termination_by limit - s.past.size
decreasing_by
  obtain ⟨hsome, hlength⟩ := past_of_pending _h
  have hbelow : ¬ limit ≤ s.past.size := fun hle => _hlimit ⟨hle, hsome⟩
  omega

end Simulation

namespace Automaton

/-- Runs an input to its verdict. -/
def run (a : Automaton) (input : String) : Option Run :=
  (Simulation.start a input).untilVerdict.map Recorded.result

/-- Runs an input to its verdict, taking at most `limit` moves. -/
def runBounded (a : Automaton) (input : String) (limit : Nat) : Except StepLimitExceeded Run :=
  ((Simulation.start a input).untilVerdictWithin limit).result

/-- Runs an input with a bound on the moves, if one is given. -/
def runWithin (a : Automaton) (limit : Option Nat) (input : String) :
    Option (Except StepLimitExceeded Run) :=
  match limit with
  | none => (a.run input).map .ok
  | some moves => some (a.runBounded input moves)

/-- The same run together with its journal. -/
def runRecorded (a : Automaton) (limit : Option Nat) (input : String) :
    Option (Recorded (Except StepLimitExceeded Run)) :=
  match limit with
  | none => (Simulation.start a input).untilVerdict.map fun r => ⟨.ok r.result, r.journal⟩
  | some moves => some ((Simulation.start a input).untilVerdictWithin moves)

theorem map_result_runRecorded (a : Automaton) (limit : Option Nat) (input : String) :
    (a.runRecorded limit input).map Recorded.result = a.runWithin limit input := by
  cases limit with
  | none => simp [runRecorded, runWithin, run, Function.comp_def]
  | some moves => rfl

end Automaton

end Pushdown
