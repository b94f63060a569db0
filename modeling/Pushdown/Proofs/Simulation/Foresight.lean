/-
  Pushdown.Proofs.Simulation.Foresight — a simulation does not see ahead.

  A step looks at the next character of the input and at nothing behind it. Two inputs that
  begin alike are therefore run alike until what they share is used up (`together_after`):
  with a character left of it neither simulation can have come to the end of its input.

  A verdict within that time is the verdict of every input that begins so, and whether a
  beginning is used up at all is decided by then (`exists_position_iff`). `alike_over_beginning`
  puts this together.
-/

import Pushdown.Proofs.Run.Agreement
import Pushdown.Proofs.Simulation.Replay
import Pushdown.Proofs.Text.Place

namespace Pushdown

namespace Simulation

/-- Two simulations of one automaton that are alike, but for what follows some characters
    that both have still to read, at least `n` of them. -/
structure Together (n : Nat) (s t : Simulation) : Prop where
  automaton : s.automaton = t.automaton
  configuration : s.configuration = t.configuration
  trace : s.trace = t.trace
  verdict : s.verdict = t.verdict
  unread : ∃ common u v, n ≤ common.length ∧ s.unread = common ++ u ∧ t.unread = common ++ v

namespace Together

variable {n : Nat} {s t : Simulation}

theorem of_le {m : Nat} (h : Together n s t) (hm : m ≤ n) : Together m s t := by
  obtain ⟨common, u, v, hn, hs, ht⟩ := h.unread
  exact ⟨h.automaton, h.configuration, h.trace, h.verdict, common, u, v, Nat.le_trans hm hn, hs, ht⟩

/-- With a character left to share, both read it. -/
theorem unread_cons (h : Together (n + 1) s t) :
    ∃ c rest u v, n ≤ rest.length ∧ s.unread = c :: (rest ++ u) ∧ t.unread = c :: (rest ++ v) := by
  obtain ⟨common, u, v, hn, hs, ht⟩ := h.unread
  cases common with
  | nil => exact absurd hn (Nat.not_succ_le_zero n)
  | cons c rest => exact ⟨c, rest, u, v, Nat.le_of_succ_le_succ hn, hs, ht⟩

theorem situation (h : Together (n + 1) s t) : s.situation = t.situation := by
  obtain ⟨c, rest, u, v, -, hs, ht⟩ := h.unread_cons
  have hletter : s.letter = t.letter := by
    rw [letter, letter, hs, ht]
  rw [Simulation.situation, Simulation.situation, hletter, h.configuration]

theorem move? (h : Together (n + 1) s t) : s.move? = t.move? := by
  rw [Simulation.move?, Simulation.move?, h.automaton, h.situation]

/-- A move of both takes the character they share, and nothing behind it. -/
theorem take (h : Together (n + 1) s t) (m : Move) : Together n (s.take m) (t.take m) := by
  obtain ⟨c, rest, u, v, hn, hs, ht⟩ := h.unread_cons
  refine ⟨h.automaton, ?_, ?_, h.verdict, rest, u, v, hn, ?_, ?_⟩
  · simp only [Simulation.take, h.configuration, hs, ht, List.take_succ_cons, List.take_zero]
  · rw [trace_take, trace_take, h.trace, h.situation]
  · show s.unread.tail = _
    rw [hs, List.tail_cons]
  · show t.unread.tail = _
    rw [ht, List.tail_cons]

theorem note (h : Together n s t) (e e' : Event) : Together n (s.note e) (t.note e') :=
  ⟨h.automaton, h.configuration, h.trace, h.verdict, h.unread⟩

theorem settle (h : Together n s t) (hs : s.verdict = none) (v : Option Verdict) :
    Together n (s.settle v) (t.settle v) := by
  refine ⟨?_, ?_, ?_, ?_, ?_⟩
  · simpa using h.automaton
  · simpa using h.configuration
  · simpa using h.trace
  · rw [verdict_settle hs, verdict_settle (h.verdict ▸ hs)]
  · simpa using h.unread

/-- A step with a character left to share keeps them together, with one less to share. -/
theorem step (h : Together (n + 1) s t) : Together n s.step.2 t.step.2 := by
  cases hv : s.verdict with
  | some v =>
    rw [step_of_verdict hv, step_of_verdict (h.verdict ▸ hv)]
    exact h.of_le (Nat.le_succ n)
  | none =>
    have hv' : t.verdict = none := h.verdict ▸ hv
    cases hm : s.move? with
    | none =>
      rw [step_of_no_move hv hm, step_of_no_move hv' (h.move? ▸ hm)]
      exact ((h.of_le (Nat.le_succ n)).note _ _).settle (by simpa using hv) _
    | some m =>
      have htake : Together n ((s.note (.moved ⟨s.situation, m⟩)).take m) ((t.note (.moved ⟨t.situation, m⟩)).take m) :=
        Together.take (h.note _ _) m
      rw [step_of_move hv hm, step_of_move hv' (h.move? ▸ hm), h.automaton]
      exact htake.settle (by simpa using hv) _

end Together

variable {a : Automaton} {w u v input : String} {n k : Nat}

theorem together_start (a : Automaton) (w u v : String) : Together w.length (start a (w ++ u)) (start a (w ++ v)) := by
  have hlength : w.length ≤ w.toList.length := Nat.le_of_eq String.length_toList.symm
  exact ⟨rfl, rfl, rfl, rfl, w.toList, u.toList, v.toList, hlength, String.toList_append, String.toList_append⟩

/-- While some of what two inputs share is unread, their simulations are together. -/
theorem together_after (h : k + n = w.length) : Together n (after a (w ++ u) k) (after a (w ++ v) k) := by
  induction k generalizing n with
  | zero =>
    obtain rfl : n = w.length := by omega
    exact together_start a w u v
  | succ k ih => exact (ih (by omega)).step

/-! ## Beginnings that are used up -/

/-- Of two beginnings of a text the longer one takes more bytes. -/
theorem byteLength_take_le_iff {text : List Char} {i j : Nat} (hi : i ≤ text.length) :
    Text.byteLength (text.take i) ≤ Text.byteLength (text.take j) ↔ i ≤ j := by
  by_cases hij : i ≤ j
  · obtain ⟨d, rfl⟩ := Nat.exists_eq_add_of_le hij
    rw [List.take_add, Text.byteLength_append]
    exact iff_of_true (Nat.le_add_right ..) hij
  · obtain ⟨d, rfl⟩ := Nat.exists_eq_add_of_le (Nat.le_of_not_le hij)
    have hpart : Text.byteLength ((text.drop j).take d) ≠ 0 := by
      intro hzero
      have hnil := congrArg List.length (byteLength_eq_zero.mp hzero)
      rw [List.length_take, List.length_drop, List.length_nil] at hnil
      omega
    rw [List.take_add, Text.byteLength_append]
    omega

/-- A simulation is past a beginning of its input when it has taken as many moves. -/
theorem byteLength_le_position_iff {p : String} (hp : p.toList <+: input.toList) :
    Text.byteLength p.toList ≤ (after a input k).configuration.position ↔
      p.length ≤ (after a input k).trace.length := by
  have hle := hp.length_le
  have hpart := List.prefix_iff_eq_take.mp hp
  rw [String.length_toList] at hle hpart
  rw [(tracked_after a input k).position, hpart]
  exact byteLength_take_le_iff hle

/-- Whether a beginning is used up is decided after as many steps as it has characters. -/
theorem exists_position_iff {p : String} (hp : p.toList <+: input.toList) :
    (∃ k, Text.byteLength p.toList ≤ (after a input k).configuration.position) ↔
      Text.byteLength p.toList ≤ (after a input p.length).configuration.position := by
  refine ⟨?_, fun h => ⟨_, h⟩⟩
  intro h
  obtain ⟨k, hk⟩ := h
  rw [byteLength_le_position_iff hp] at hk ⊢
  cases hv : (after a input p.length).verdict with
  | none => exact Nat.le_of_eq (length_trace_after hv).symm
  | some v =>
    have hlater : p.length ≤ k := Nat.le_trans hk (length_trace_le k)
    rwa [after_of_verdict hv hlater] at hk

end Simulation

open Simulation

/-- Two inputs that begin with `w` are run alike until it is used up. -/
structure AlikeOver (a : Automaton) (w u v : String) : Prop where
  steps : ∀ k ≤ w.length, (after a (w ++ u) k).configuration = (after a (w ++ v) k).configuration ∧
    (after a (w ++ u) k).trace = (after a (w ++ v) k).trace ∧ (after a (w ++ u) k).verdict = (after a (w ++ v) k).verdict
  /-- A verdict by then is that of both. -/
  run : ∀ k ≤ w.length, (after a (w ++ u) k).verdict ≠ none → ∃ r, a.run (w ++ u) = some r ∧ a.run (w ++ v) = some r
  /-- Whether a part of the beginning is ever used up does not depend on what follows. -/
  consumed : ∀ p : String, p.toList <+: w.toList →
    ((∃ k, Text.byteLength p.toList ≤ (after a (w ++ u) k).configuration.position) ↔
      ∃ k, Text.byteLength p.toList ≤ (after a (w ++ v) k).configuration.position)

/-- No step sees what follows the characters that are left of a common beginning. -/
theorem alike_over_beginning (a : Automaton) (w u v : String) : AlikeOver a w u v := by
  have htogether : ∀ k ≤ w.length, Together (w.length - k) (after a (w ++ u) k) (after a (w ++ v) k) := by
    intro k hk
    exact together_after (Nat.add_sub_cancel' hk)
  refine ⟨?_, ?_, ?_⟩
  · intro k hk
    exact ⟨(htogether k hk).configuration, (htogether k hk).trace, (htogether k hk).verdict⟩
  · intro k hk hv
    obtain ⟨verdict, hu⟩ := Option.ne_none_iff_exists'.mp hv
    have hrun := finish_of_verdict hu
    have hrun' := finish_of_verdict ((htogether k hk).verdict ▸ hu)
    rw [toRun, ← (htogether k hk).trace, ← (htogether k hk).configuration] at hrun'
    exact ⟨_, run_eq_some.mpr ⟨k, hrun⟩, run_eq_some.mpr ⟨k, hrun'⟩⟩
  · intro p hp
    have hle : p.length ≤ w.length := by
      rw [← String.length_toList, ← String.length_toList]
      exact hp.length_le
    have hpu : p.toList <+: (w ++ u).toList := String.toList_append ▸ hp.trans (List.prefix_append ..)
    have hpv : p.toList <+: (w ++ v).toList := String.toList_append ▸ hp.trans (List.prefix_append ..)
    rw [exists_position_iff hpu, exists_position_iff hpv, (htogether p.length hle).configuration]

end Pushdown
