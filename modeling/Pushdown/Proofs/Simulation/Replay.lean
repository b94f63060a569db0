/-
  Pushdown.Proofs.Simulation.Replay — a simulation is the replay of its trace.

  The configuration, the rest of the input and the trace are kept apart, and each step
  changes all of them. `replayed_after`: after any number of steps on any input the trace
  alone gives the others. Its steps form a chain of moves of the automaton from the first
  state; its last target is the state; its replacements, made on the empty stack, leave
  the stack, and each step saw the top of what the steps before it had left; the
  characters it read are the input up to the position, which never cuts a character; and
  the end of the input is read only when nothing is left of it.

  What a step reads is fixed by its number alone (`Replayed.letter`): step `i` reads
  character `i`, and past the last character the end of the input. The other facts about
  letters and positions follow from that one by `charsRead_eq_take`.
-/

import Pushdown.Proofs.Simulation.Step
import Pushdown.Proofs.Table

namespace Pushdown

/-- The letter that step `i` on an input reads. -/
def Letter.ofIndex (input : List Char) (i : Nat) : Letter :=
  match input[i]? with
  | some c => .char c
  | none => .inputEnd

/-- The letter at a byte offset of an input: its end where no character begins. -/
def Letter.ofOffset (input : List Char) (offset : Nat) : Letter :=
  match Text.dropBytes? offset input with
  | some (c :: _) => .char c
  | _ => .inputEnd

/-- The character that a letter takes from the input. -/
def Letter.char? : Letter → Option Char
  | .inputEnd => none
  | .char c => some c

namespace Step

/-! ## What a trace says by itself -/

/-- Each step leaves the state that the step before it entered. -/
def Chained (first : State) : List Step → Prop
  | [] => True
  | step :: rest => step.situation.state = first ∧ Chained step.move.state rest

/-- The state that a trace leads to. -/
def lastState (first : State) : List Step → State
  | [] => first
  | step :: rest => lastState step.move.state rest

/-- The stack that the replacements of a trace leave, from the empty one. -/
def stackAfter (trace : List Step) : Stack :=
  trace.foldl (fun stack step => stack.replaceTop step.move.push) .empty

/-- The characters that a trace took from the input. -/
def charsRead (trace : List Step) : List Char := trace.filterMap fun step => step.situation.letter.char?

theorem chained_snoc (first : State) (trace : List Step) (step : Step) :
    Chained first (trace ++ [step]) ↔
      Chained first trace ∧ step.situation.state = lastState first trace := by
  induction trace generalizing first with
  | nil => simp [Chained, lastState]
  | cons s rest ih => simp only [List.cons_append, Chained, lastState, ih, and_assoc]

theorem lastState_snoc (first : State) (trace : List Step) (step : Step) :
    lastState first (trace ++ [step]) = step.move.state := by
  induction trace generalizing first with
  | nil => rfl
  | cons s rest ih => exact ih _

theorem stackAfter_snoc (trace : List Step) (step : Step) :
    stackAfter (trace ++ [step]) = (stackAfter trace).replaceTop step.move.push := by
  simp [stackAfter]

/-! ## The letters by their numbers -/

/-- Whether step `i` reads letter `i` of an input, for all steps. -/
def ReadsInOrder (input : List Char) (steps : List Step) : Prop :=
  ∀ i (h : i < steps.length), steps[i].situation.letter = Letter.ofIndex input i

/-- Steps that read letter by letter take the characters of the input in order, and none
    once there are no more. -/
theorem charsRead_eq_take {input : List Char} {trace : List Step} (h : ReadsInOrder input trace) :
    charsRead trace = input.take trace.length := by
  induction trace generalizing input with
  | nil => simp [charsRead]
  | cons step rest ih =>
    have h0 : step.situation.letter = Letter.ofIndex input 0 := h 0 (by simp)
    have hrest : ReadsInOrder input.tail rest := by
      intro i hi
      have := h (i + 1) (by simpa using hi)
      simpa [Letter.ofIndex, List.getElem?_tail] using this
    have hc : charsRead (step :: rest) = step.situation.letter.char?.toList ++ charsRead rest := by
      cases hl : step.situation.letter <;> simp [charsRead, hl, Letter.char?]
    rw [hc, ih hrest, h0]
    cases input with
    | nil => simp [Letter.ofIndex, Letter.char?]
    | cons c cs => simp [Letter.ofIndex, Letter.char?]

theorem ReadsInOrder.take {input : List Char} {trace : List Step} (h : ReadsInOrder input trace) (n : Nat) :
    ReadsInOrder input (trace.take n) := by
  intro i hi
  rw [List.getElem_take]
  exact h i _

end Step

/-! ## What a step keeps -/

open Step in
/-- What each step keeps: the facts about states, stacks and letters, and how far the input
    is used up. The number of steps alone says the latter, even past the end. -/
structure Tracked (a : Automaton) (input : List Char) (s : Simulation) : Prop where
  chained : Chained a.initial s.trace
  moves : ∀ step ∈ s.trace, (step.situation, step.move) ∈ a.moves.entries
  state : s.configuration.state = lastState a.initial s.trace
  stack : s.configuration.stack = stackAfter s.trace
  top : ∀ i (h : i < s.trace.length), s.trace[i].situation.top = (stackAfter (s.trace.take i)).top
  letter : ReadsInOrder input s.trace
  unread : s.unread = input.drop s.trace.length
  position : s.configuration.position = Text.byteLength (input.take s.trace.length)

namespace Simulation

variable {a : Automaton} {input : List Char} {s : Simulation}

theorem letter_of_unread {n : Nat} (h : s.unread = input.drop n) : s.letter = Letter.ofIndex input n := by
  unfold letter Letter.ofIndex
  rw [h, ← List.head?_drop]
  cases input.drop n <;> rfl

theorem tracked_start (a : Automaton) (input : String) : Tracked a input.toList (start a input) where
  chained := trivial
  moves := by simp [start, trace]
  state := rfl
  stack := rfl
  top := by simp [start, trace]
  letter := by intro i h; simp [start, trace] at h
  unread := rfl
  position := rfl

/-- Taking the move of the situation keeps the invariant. -/
theorem tracked_take (h : Tracked a input s) {m : Move} (hm : a.move? s.situation = some m) :
    Tracked a input (s.take m) where
  chained := by
    rw [trace_take, Step.chained_snoc]
    exact ⟨h.chained, h.state⟩
  moves := by
    intro step hs
    rw [trace_take, List.mem_append, List.mem_singleton] at hs
    rcases hs with hs | rfl
    · exact h.moves step hs
    · exact Table.mem_of_get? hm
  state := by rw [trace_take, Step.lastState_snoc]; rfl
  stack := by
    rw [trace_take, Step.stackAfter_snoc, ← h.stack]
    rfl
  top := by
    intro i hi
    simp only [trace_take] at hi ⊢
    by_cases hlt : i < s.trace.length
    · rw [List.getElem_append_left hlt, List.take_append_of_le_length (by omega)]
      exact h.top i hlt
    · have hi' : i = s.trace.length := by simp at hi; omega
      subst hi'
      simp [situation, h.stack]
  letter := by
    intro i hi
    simp only [trace_take] at hi ⊢
    by_cases hlt : i < s.trace.length
    · rw [List.getElem_append_left hlt]
      exact h.letter i hlt
    · have hi' : i = s.trace.length := by simp at hi; omega
      subst hi'
      simpa [situation] using letter_of_unread h.unread
  unread := by
    show s.unread.tail = _
    rw [trace_take, h.unread, List.tail_drop, List.length_append, List.length_singleton]
  position := by
    show s.configuration.position + Text.byteLength (s.unread.take 1) = _
    rw [trace_take, h.position, h.unread, ← Text.byteLength_append, List.length_append, List.length_singleton,
      List.take_add]

theorem tracked_step (h : Tracked s.automaton input s) : Tracked s.automaton input s.step.2 := by
  rcases step_cases s with ⟨v, -, e⟩ | ⟨-, -, e⟩ | ⟨m, -, hm, e⟩ <;> rw [e]
  · exact h
  · exact ⟨h.chained, h.moves, h.state, h.stack, h.top, h.letter, h.unread, h.position⟩
  · have ht := tracked_take h hm
    -- what is noted down and the verdict are no part of the invariant
    refine ⟨?_, ?_, ?_, ?_, ?_, ?_, ?_, ?_⟩ <;> simp only [trace_settle, configuration_settle, unread_settle]
    · exact ht.chained
    · exact ht.moves
    · exact ht.state
    · exact ht.stack
    · exact ht.top
    · exact ht.letter
    · exact ht.unread
    · exact ht.position

theorem tracked_after (a : Automaton) (input : String) (k : Nat) :
    Tracked a input.toList (after a input k) := by
  induction k with
  | zero => exact tracked_start a input
  | succ k ih =>
    have h : Tracked (after a input k).automaton input.toList (after a input k) := by
      rw [automaton_after]; exact ih
    have := tracked_step h
    rwa [automaton_after] at this

end Simulation

/-! ## The replay -/

open Step in
/-- A simulation on an input is what its trace says. -/
structure Replayed (a : Automaton) (input : String) (s : Simulation) : Prop where
  chained : Chained a.initial s.trace
  moves : ∀ step ∈ s.trace, (step.situation, step.move) ∈ a.moves.entries
  state : s.configuration.state = lastState a.initial s.trace
  stack : s.configuration.stack = stackAfter s.trace
  top : ∀ i (h : i < s.trace.length), s.trace[i].situation.top = (stackAfter (s.trace.take i)).top
  /-- The position cuts no character, and what was read stands before it. -/
  read : Text.takeBytes? s.configuration.position input.toList = some (charsRead s.trace)
  position_le : s.configuration.position ≤ Text.byteLength input.toList
  /-- The next letter is the one at the position. -/
  next : s.letter = Letter.ofOffset input.toList s.configuration.position
  /-- The end is read only after all characters. -/
  ended : ∀ i (h : i < s.trace.length), s.trace[i].situation.letter = .inputEnd →
    charsRead (s.trace.take i) = input.toList
  letter : ∀ i (h : i < s.trace.length), s.trace[i].situation.letter = Letter.ofIndex input.toList i

theorem Letter.ofIndex_eq_inputEnd {input : List Char} {i : Nat} :
    Letter.ofIndex input i = .inputEnd ↔ input.length ≤ i := by
  unfold Letter.ofIndex
  cases h : input[i]? with
  | none => simpa using h
  | some c =>
    obtain ⟨hi, -⟩ := List.getElem?_eq_some_iff.mp h
    simp only [reduceCtorEq, false_iff]
    omega

theorem Letter.ofOffset_take (input : List Char) (n : Nat) :
    Letter.ofOffset input (Text.byteLength (input.take n)) = Letter.ofIndex input n := by
  have hd := Text.dropBytes?_append (input.take n) (input.drop n)
  rw [List.take_append_drop] at hd
  unfold Letter.ofOffset Letter.ofIndex
  rw [hd, ← List.head?_drop]
  cases input.drop n <;> rfl

theorem Replayed.of_tracked {a : Automaton} {input : String} {s : Simulation}
    (h : Tracked a input.toList s) : Replayed a input s where
  chained := h.chained
  moves := h.moves
  state := h.state
  stack := h.stack
  top := h.top
  read := by
    have ht := Text.takeBytes?_append (input.toList.take s.trace.length) (input.toList.drop s.trace.length)
    rwa [List.take_append_drop, ← h.position, ← Step.charsRead_eq_take h.letter] at ht
  position_le := by
    have hl := Text.byteLength_append (input.toList.take s.trace.length) (input.toList.drop s.trace.length)
    rw [List.take_append_drop] at hl
    rw [h.position]
    omega
  next := by rw [h.position, Letter.ofOffset_take, Simulation.letter_of_unread h.unread]
  ended := by
    intro i hi he
    have hle : input.toList.length ≤ i := Letter.ofIndex_eq_inputEnd.mp ((h.letter i hi).symm.trans he)
    have hn : (s.trace.take i).length = i := by rw [List.length_take]; omega
    rw [Step.charsRead_eq_take (h.letter.take i), hn, List.take_of_length_le hle]
  letter := h.letter

/-- After any number of steps the simulation is the replay of its trace. -/
theorem Simulation.replayed_after (a : Automaton) (input : String) (k : Nat) :
    Replayed a input (after a input k) :=
  Replayed.of_tracked (tracked_after a input k)

end Pushdown
