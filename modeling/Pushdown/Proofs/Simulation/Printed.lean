/-
  Pushdown.Proofs.Simulation.Printed — a printed step is read back as the step it was.

  The text of a step is scanned as its state, a colon and a line that is read as a
  transition, and the names of the transition stand for the rest of the step (`ReadAs`).
  This needs all that a loaded automaton has: its names are words, no state that a move
  leaves begins with a `#`, and no stack symbol has the name of the bottom. The text of a
  step decides how it is read, so no two traces are printed alike (`printed_steps_readAs`).
-/

import Pushdown.Proofs.Automaton.Moves
import Pushdown.Proofs.Automaton.Written
import Pushdown.Proofs.Run.Agreement
import Pushdown.Proofs.Simulation.Replay

namespace Pushdown

open Grammar

/-- What is scanned of a printed step, and how it is read: the name of its state, a colon,
    and a line that is a transition with the letter, the top and the move of the step. -/
structure Step.ReadAs (step : Step) (line : Line) (t : Located TransitionLine) : Prop where
  scanned : ∃ state colon : Span, (scan step.text).map (fun s => (s.lexeme, s.span)) =
    (⟨.word step.situation.state.name, state⟩ :: ⟨.colon, colon⟩ :: line.tokens).map fun t => (.token t.value, t.span)
  read : readTransition line = .ok t
  letter : Letter.ofText? t.value.letter.value = some step.situation.letter
  top : StackSymbol.ofText t.value.top.value = step.situation.top
  next : ⟨t.value.next.value⟩ = step.move.state
  push : t.value.push.value.map (fun name => StackSymbol.ofText name.value) = step.move.push

/-! ## Reading back -/

/-- Lexemes that are tokens, with their places. -/
theorem exists_located {lexemes : List Scanned} {tokens : List Token}
    (h : lexemes.map Scanned.lexeme = tokens.map .token) :
    ∃ located : List (Located Token), located.map Located.value = tokens ∧
      lexemes.map (fun s => (s.lexeme, s.span)) = located.map fun t => (.token t.value, t.span) := by
  induction tokens generalizing lexemes with
  | nil =>
    obtain rfl : lexemes = [] := List.map_eq_nil_iff.mp h
    exact ⟨[], rfl, rfl⟩
  | cons t rest ih =>
    obtain ⟨s, more, rfl, hs, hmore⟩ := List.map_eq_cons_iff.mp h
    obtain ⟨located, hvalues, hplaces⟩ := ih hmore
    exact ⟨⟨t, s.span⟩ :: located, by rw [List.map_cons, hvalues], by rw [List.map_cons, List.map_cons, hplaces, hs]⟩

section Sound

variable {a : Automaton} {step : Step}

/-- A state that a move leaves is a header of the canonical form. -/
theorem Automaton.Sound.state_mem_headers (hs : a.Sound) {entry : Situation × Move} (h : entry ∈ a.moves.entries) :
    entry.1.state.name ∈ a.outline.headers := by
  have hmoves : entry ∈ a.movesFrom entry.1.state := Automaton.mem_movesFrom.mpr ⟨h, rfl⟩
  have hsome : (!(a.movesFrom entry.1.state).isEmpty) = true := by simp [List.ne_nil_of_mem hmoves]
  exact List.mem_map_of_mem (List.mem_filter.mpr ⟨hs.states entry h, hsome⟩)

theorem lexemes_step (hs : a.Sound) (hn : a.outline.Spelled)
    (h : (step.situation, step.move) ∈ a.moves.entries) :
    (scan step.text).map Scanned.lexeme =
      (.word step.situation.state.name :: .colon :: (Rule.ofEntry (step.situation, step.move)).tokens).map .token := by
  have hword : IsWord step.situation.state.name := hn.states _ (List.mem_map_of_mem (hs.states _ h))
  have hcomment : ¬ OpensComment step.situation.state.name := hn.headers _ (hs.state_mem_headers h)
  have hrule : (Rule.ofEntry (step.situation, step.move)).Spelled := hn.rule (hs.allows h)
  have htext : step.text.toList = step.situation.state.name.toList ++
      ':' :: ' ' :: (step.situation.text ++ " -> " ++ step.move.text).toList := by
    simp [Step.text, String.toList_append]
  have htransition : lexemesFrom false (step.situation.text ++ " -> " ++ step.move.text).toList =
      (Rule.ofEntry (step.situation, step.move)).tokens.map .token := lexemesFrom_transition hrule false
  rw [scan, lexeme_scanFrom, htext, lexemesFrom_word_punctuation hword (fun _ => hcomment) rfl, lexemesFrom_space,
    htransition]
  rfl

theorem exists_readAs (hs : a.Sound) (hn : a.outline.Spelled) (h : (step.situation, step.move) ∈ a.moves.entries) :
    ∃ line t, step.ReadAs line t := by
  obtain ⟨located, hvalues, hscanned⟩ := exists_located (lexemes_step hs hn h)
  obtain ⟨state, _, rfl, h1⟩ := cons_of_values hvalues
  obtain ⟨colon, tokens, rfl, htokens⟩ := cons_of_values h1
  have hne : tokens ≠ [] := by
    rintro rfl
    cases htokens
  obtain ⟨t, ht, hrule⟩ := transition_of_tokens htokens
  obtain ⟨htop, hpush⟩ := hs.ofText_text h
  simp only [Rule.ofTransition, Rule.ofEntry, Rule.mk.injEq, true_and] at hrule
  obtain ⟨hletter, hname, hnext, hnames⟩ := hrule
  refine ⟨⟨0, tokens, hne⟩, ⟨t, _⟩, ⟨state, colon, hscanned⟩, readTransition_eq_ok.mpr ⟨ht, rfl⟩, ?_, ?_, ?_, ?_⟩
  · rw [hletter, Letter.ofText?_text]
  · rw [hname]
    exact htop
  · rw [hnext]
  · rw [← Function.comp_def StackSymbol.ofText, ← List.map_map, hnames, List.map_map]
    exact (List.map_congr_left hpush).trans (List.map_id _)

end Sound

/-- Equal tokens are read as equal transitions, wherever their lines begin. -/
theorem readTransition_unique {line line' : Line} {t t' : Located TransitionLine} (h : readTransition line = .ok t)
    (h' : readTransition line' = .ok t') (htokens : line.tokens = line'.tokens) : t.value = t'.value := by
  obtain ⟨ht', -⟩ := readTransition_eq_ok.mp h'
  have hread : readTransition line = .ok ⟨t'.value, line.span⟩ := readTransition_eq_ok.mpr ⟨htokens ▸ ht', rfl⟩
  have hsame : t = ⟨t'.value, line.span⟩ := Except.ok.inj (h.symm.trans hread)
  rw [hsame]

theorem Step.eq_of_parts {step step' : Step} (hstate : step.situation.state = step'.situation.state)
    (hletter : step.situation.letter = step'.situation.letter) (htop : step.situation.top = step'.situation.top)
    (hnext : step.move.state = step'.move.state) (hpush : step.move.push = step'.move.push) : step = step' := by
  obtain ⟨⟨state, letter, top⟩, ⟨next, push⟩⟩ := step
  obtain ⟨⟨state', letter', top'⟩, ⟨next', push'⟩⟩ := step'
  simp only at hstate hletter htop hnext hpush
  rw [hstate, hletter, htop, hnext, hpush]

/-- The text decides how it is read, and that decides the step. -/
theorem Step.ReadAs.unique {step step' : Step} {line line' : Line} {t t' : Located TransitionLine}
    (h : step.ReadAs line t) (h' : step'.ReadAs line' t') (htext : step.text = step'.text) : step = step' := by
  obtain ⟨state, colon, hscanned⟩ := h.scanned
  obtain ⟨state', colon', hscanned'⟩ := h'.scanned
  have hinj : ∀ t t' : Located Token, (Lexeme.token t.value, t.span) = (Lexeme.token t'.value, t'.span) → t = t' := by
    rintro ⟨value, span⟩ ⟨value', span'⟩ he
    cases he
    rfl
  rw [htext, hscanned'] at hscanned
  have hall := (List.map_inj_right hinj).mp hscanned
  simp only [List.cons.injEq, Located.mk.injEq, Token.word.injEq, true_and] at hall
  obtain ⟨⟨hname, -⟩, -, htokens⟩ := hall
  have ht : t.value = t'.value := readTransition_unique h.read h'.read htokens.symm
  apply Step.eq_of_parts
  · exact accepts_state.text_inj _ _ hname.symm
  · rw [← Option.some_inj, ← h.letter, ← h'.letter, ht]
  · rw [← h.top, ← h'.top, ht]
  · rw [← h.next, ← h'.next, ht]
  · rw [← h.push, ← h'.push, ht]

theorem eq_of_map_text {steps steps' : List Step} (h : ∀ step ∈ steps, ∃ line t, step.ReadAs line t)
    (h' : ∀ step ∈ steps', ∃ line t, step.ReadAs line t) (htexts : steps.map Step.text = steps'.map Step.text) :
    steps = steps' := by
  refine eq_of_map_eq (fun step hstep step' hstep' htext => ?_) htexts
  obtain ⟨line, t, hread⟩ := h step hstep
  obtain ⟨line', t', hread'⟩ := h' step' hstep'
  exact hread.unique hread' htext

/-! ## Traces -/

open Simulation

theorem exists_readAs_of_load {source : String} {a : Automaton} (h : load source = .ok a) (input : String) (k : Nat) :
    ∀ step ∈ (after a input k).trace, ∃ line t, step.ReadAs line t := by
  intro step hstep
  exact exists_readAs (sound_of_load h) (spelled_of_load h) ((tracked_after a input k).moves step hstep)

/-- Every step of a loaded automaton is read back from its text, so the lines of a printed
    trace are those of one trace only, whatever automaton it comes from. -/
theorem printed_steps_readAs :
    (∀ source a, load source = .ok a → ∀ input k, ∀ step ∈ (after a input k).trace, ∃ line t, step.ReadAs line t) ∧
      ∀ source source' a a', load source = .ok a → load source' = .ok a' →
        ∀ input input' bound bound' r r', a.runWithin bound input = some (.ok r) →
          a'.runWithin bound' input' = some (.ok r') →
          r.trace.map Step.text = r'.trace.map Step.text → r.trace = r'.trace := by
  refine ⟨fun source a h => exists_readAs_of_load h, ?_⟩
  intro source source' a a' h h' input input' bound bound' r r' hr hr' htexts
  obtain ⟨k, hk⟩ := exists_after_of_runWithin hr
  obtain ⟨k', hk'⟩ := exists_after_of_runWithin hr'
  have htrace : (after a input k).trace = r.trace := (finish_eq_some.mp hk).2.1
  have htrace' : (after a' input' k').trace = r'.trace := (finish_eq_some.mp hk').2.1
  exact eq_of_map_text (htrace ▸ exists_readAs_of_load h input k) (htrace' ▸ exists_readAs_of_load h' input' k') htexts

/-- Two steps of `carousel` that see the bottom of the stack and the end of the input, and
    runs with two bounds that print the same. -/
theorem readAs_of_carousel :
    load carousel = .ok .carousel ∧
      (after .carousel "a" 2).trace.map Step.text =
        ["p: (a, STACK_END) -> q [STACK_END, a]", "q: (INPUT_END, a) -> r []"] ∧
      (∀ step ∈ (after .carousel "a" 2).trace, ∃ line t, step.ReadAs line t) ∧
      ∃ r r', Automaton.carousel.runWithin (some 3) "" = some (.ok r) ∧
        Automaton.carousel.runWithin (some 9) "" = some (.ok r') ∧ r.trace.map Step.text = r'.trace.map Step.text ∧
        r.trace.length = 3 ∧ r.trace = r'.trace := by
  obtain ⟨hread, hsame⟩ := printed_steps_readAs
  refine ⟨load_carousel, by decide +kernel, hread _ _ load_carousel "a" 2, ?_⟩
  have hfinish : (after .carousel "" 3).finish = some ((after .carousel "" 3).toRun .accepted) := rfl
  have hrun3 := runWithin_of_finish hfinish (by decide : _ ≤ 3)
  have hrun9 := runWithin_of_finish hfinish (by decide : _ ≤ 9)
  exact ⟨_, _, hrun3, hrun9, rfl, by decide,
    hsame _ _ _ _ load_carousel load_carousel "" "" (some 3) (some 9) _ _ hrun3 hrun9 rfl⟩

end Pushdown
