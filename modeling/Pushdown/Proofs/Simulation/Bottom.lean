/-
  Pushdown.Proofs.Simulation.Bottom — a stack with its bottom in it.

  A simulation never stores the bottom of the stack and leaves out every bottom that a
  move puts there. A plain machine keeps the stack as a list with the bottom in it: a step
  takes the last entry away, puts the bottom back if that was it and the replacement does
  not bring it, and appends the replacement as it stands. `lockstep_of_load`: on every
  loaded automaton the two go together step by step, and the list is the bottom followed
  by the symbols of the simulation. So the bottom is there once, below all else.

  This holds because a loaded move has the bottom in its replacement only in front, and
  only if it was seen (`Automaton.Sound.keepsBottom`); on that one fact a replacement is
  the same on both stacks (`replaceLast_withBottom`).
-/

import Pushdown.Proofs.Automaton.Moves
import Pushdown.Proofs.Simulation.Replay

namespace Pushdown

/-! ## Plain machines -/

structure PlainMachine where
  state : State
  /-- The bottom and what lies on it, the lowest first. -/
  stack : List StackSymbol
  /-- The byte offset of the next character of the input. -/
  position : Nat
  /-- The steps taken, the first one first. -/
  trace : List Step
  verdict : Option Verdict

/-- Puts a replacement in place of the last entry; the bottom stays, unless the
    replacement brings it. -/
def replaceLast (stack replacement : List StackSymbol) : List StackSymbol :=
  if stack.getLast? = some .stackEnd ∧ replacement.head? ≠ some .stackEnd then
    stack.dropLast ++ [.stackEnd] ++ replacement
  else stack.dropLast ++ replacement

namespace PlainMachine

def start (a : Automaton) : PlainMachine := ⟨a.initial, [.stackEnd], 0, [], none⟩

/-- The step there is: none on an empty list, and none without an entry in the table. -/
def next? (a : Automaton) (input : List Char) (p : PlainMachine) : Option Step :=
  p.stack.getLast?.bind fun top =>
    let situation : Situation := ⟨p.state, Letter.ofOffset input p.position, top⟩
    (a.move? situation).map fun move => ⟨situation, move⟩

def take (a : Automaton) (p : PlainMachine) (step : Step) : PlainMachine where
  state := step.move.state
  stack := replaceLast p.stack step.move.push
  position := p.position + Text.byteLength step.situation.letter.char?.toList
  trace := p.trace ++ [step]
  verdict := a.verdictOf? step.move.state

def step (a : Automaton) (input : List Char) (p : PlainMachine) : PlainMachine :=
  match p.verdict, p.next? a input with
  | some _, _ => p
  | none, none => { p with verdict := some .stuck }
  | none, some step => p.take a step

def after (a : Automaton) (input : List Char) : Nat → PlainMachine
  | 0 => start a
  | k + 1 => (after a input k).step a input

end PlainMachine

/-! ## One replacement on both stacks -/

namespace Stack

/-- A stack with its bottom. -/
def withBottom (s : Stack) : List StackSymbol := .stackEnd :: s.symbols.map .symbol

theorem withBottom_cons (x : Symbol) (rest : List Symbol) :
    (⟨x :: rest⟩ : Stack).withBottom = (⟨rest⟩ : Stack).withBottom ++ [.symbol x] := by
  simp [withBottom, symbols]

theorem getLast?_withBottom (s : Stack) : s.withBottom.getLast? = some s.top := by
  obtain ⟨symbols⟩ := s
  cases symbols with
  | nil => rfl
  | cons x rest =>
    rw [withBottom_cons, List.getLast?_concat]
    rfl

theorem withBottom_replaceTop (s : Stack) (push : List StackSymbol) :
    (s.replaceTop push).withBottom =
      .stackEnd :: (s.symbols.dropLast.map .symbol ++ (stored push).map .symbol) := by
  rw [withBottom, symbols_replaceTop, List.map_append]

theorem stored_map_symbol (added : List Symbol) : stored (added.map .symbol) = added := by
  rw [stored, List.filterMap_map]
  exact List.filterMap_some

theorem head?_map_symbol (added : List Symbol) : (added.map StackSymbol.symbol).head? ≠ some .stackEnd := by
  cases added <;> simp

theorem replaceLast_withBottom {s : Stack} {push : List StackSymbol} (h : KeepsBottom s.top push) :
    replaceLast s.withBottom push = (s.replaceTop push).withBottom := by
  rw [withBottom_replaceTop, replaceLast]
  obtain ⟨symbols⟩ := s
  obtain ⟨added, rfl | ⟨htop, rfl⟩⟩ := h
  · rw [stored_map_symbol]
    cases symbols with
    | nil =>
      -- the bottom is taken away and put back
      rw [if_pos ⟨rfl, head?_map_symbol added⟩]
      rfl
    | cons x rest =>
      rw [withBottom_cons, List.getLast?_concat, List.dropLast_concat, if_neg (by simp)]
      simp [withBottom, Stack.symbols]
  · cases symbols with
    | nil =>
      rw [if_neg (by simp), stored, List.filterMap_cons, ← stored, stored_map_symbol]
      rfl
    | cons x rest => cases htop

/-- The bottom is there once, and below all else. -/
theorem count_withBottom (s : Stack) : s.withBottom.count .stackEnd = 1 := by
  rw [withBottom, List.count_cons_self, List.count_eq_zero_of_not_mem]
  simp

end Stack

/-! ## Lockstep -/

/-- A plain machine and a simulation that differ in nothing but the form of the stack. -/
structure Lockstep (p : PlainMachine) (s : Simulation) : Prop where
  state : p.state = s.configuration.state
  position : p.position = s.configuration.position
  trace : p.trace = s.trace
  verdict : p.verdict = s.verdict
  stack : p.stack = s.configuration.stack.withBottom

namespace Lockstep

open Simulation

variable {a : Automaton} {input : String} {p : PlainMachine} {s : Simulation}

theorem start (a : Automaton) (input : String) : Lockstep (.start a) (Simulation.start a input) :=
  ⟨rfl, rfl, rfl, rfl, rfl⟩

/-- Both look up the same situation. -/
theorem next?_eq (h : Lockstep p s) (hr : Replayed a input s) :
    p.next? a input.toList = (a.move? s.situation).map fun move => ⟨s.situation, move⟩ := by
  rw [PlainMachine.next?, h.stack, Stack.getLast?_withBottom, h.state, h.position, ← hr.next]
  rfl

theorem byteLength_letter (s : Simulation) :
    Text.byteLength s.letter.char?.toList = Text.byteLength (s.unread.take 1) := by
  unfold letter
  cases s.unread <;> rfl

theorem note (h : Lockstep p s) (e : Event) : Lockstep p (s.note e) :=
  ⟨h.state, h.position, h.trace, h.verdict, h.stack⟩

theorem take (hs : a.Sound) (h : Lockstep p s) {m : Move} (hv : s.verdict = none) (hm : a.move? s.situation = some m) :
    Lockstep (p.take a ⟨s.situation, m⟩) ((s.take m).settle (a.verdictOf? m.state)) where
  state := by
    rw [configuration_settle]
    rfl
  position := by
    rw [configuration_settle]
    show p.position + Text.byteLength s.letter.char?.toList = s.configuration.position + _
    rw [h.position, byteLength_letter]
  trace := by
    rw [trace_settle, trace_take, ← h.trace]
    rfl
  verdict := by
    rw [verdict_settle (by simpa using hv)]
    rfl
  stack := by
    rw [configuration_settle]
    show replaceLast p.stack m.push = (s.configuration.stack.replaceTop m.push).withBottom
    rw [h.stack]
    exact Stack.replaceLast_withBottom (hs.keepsBottom (Table.mem_of_get? hm))

/-- A step keeps the two together. -/
theorem step (hs : a.Sound) (ha : s.automaton = a) (hr : Replayed a input s) (h : Lockstep p s) :
    Lockstep (p.step a input.toList) s.step.2 := by
  subst ha
  have hnext := h.next?_eq hr
  rcases step_cases s with ⟨v, hv, e⟩ | ⟨hv, hm, e⟩ | ⟨m, hv, hm, e⟩
  · rw [e, PlainMachine.step, h.verdict, hv]
    exact h
  · rw [Simulation.move?] at hm
    rw [e, PlainMachine.step, h.verdict, hv, hnext, hm]
    exact ⟨h.state, h.position, h.trace, rfl, h.stack⟩
  · rw [Simulation.move?] at hm
    rw [e, PlainMachine.step, h.verdict, hv, hnext, hm]
    exact (h.note (.moved ⟨s.situation, m⟩)).take hs hv hm

theorem after (hs : a.Sound) (input : String) (k : Nat) :
    Lockstep (.after a input.toList k) (Simulation.after a input k) := by
  induction k with
  | zero => exact .start a input
  | succ k ih => exact ih.step hs (automaton_after a input k) (.of_tracked (tracked_after a input k))

end Lockstep

/-- A loaded automaton goes through any input as a machine does that keeps the bottom of
    the stack among its symbols. The bottom is there once, below all else, and the top is
    the last entry. -/
theorem lockstep_of_load {source : String} {a : Automaton} (h : load source = .ok a) (input : String) (k : Nat) :
    Lockstep (.after a input.toList k) (.after a input k) ∧
      (PlainMachine.after a input.toList k).stack.count .stackEnd = 1 ∧
      (PlainMachine.after a input.toList k).stack.head? = some .stackEnd ∧
      (PlainMachine.after a input.toList k).stack.getLast? =
        some (Simulation.after a input k).configuration.stack.top := by
  have hl : Lockstep (.after a input.toList k) (.after a input k) := .after (sound_of_load h) input k
  rw [hl.stack]
  exact ⟨hl, Stack.count_withBottom _, rfl, Stack.getLast?_withBottom _⟩

theorem lockstep_of_carousel :
    load carousel = .ok .carousel ∧
      (Lockstep (.after .carousel "".toList 2) (.after .carousel "" 2) ∧
        (PlainMachine.after .carousel "".toList 2).stack.count .stackEnd = 1 ∧
        (PlainMachine.after .carousel "".toList 2).stack.head? = some .stackEnd ∧
        (PlainMachine.after .carousel "".toList 2).stack.getLast? =
          some (Simulation.after .carousel "" 2).configuration.stack.top) ∧
      (PlainMachine.after .carousel "".toList 1).stack = [.stackEnd] ∧
      (PlainMachine.after .carousel "".toList 2).stack = [.stackEnd, .symbol ⟨"a"⟩] :=
  ⟨load_carousel, lockstep_of_load load_carousel "" 2, by decide, by decide⟩

end Pushdown
