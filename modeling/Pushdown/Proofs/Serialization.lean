/-
  Pushdown.Proofs.Serialization — what is written as JSON is written of one thing only.

  Letters and stack symbols are written by their names, so a symbol that had the name of the
  bottom would be written like the bottom. A loaded automaton has none (`Automaton.Sound`),
  and so its table is known by what is written of it (`eq_of_ofEntry`), and so are the steps
  of its runs. The rest of an automaton or of a run is written as it is, and no two values
  have one text (`Json.render_inj`).
-/

import Pushdown.Proofs.Automaton.Moves
import Pushdown.Proofs.Json
import Pushdown.Proofs.Run.Agreement
import Pushdown.Proofs.Simulation.Replay

namespace Pushdown

/-! ## Parts -/

theorem Json.ofOption_inj {α : Type} {form : α → Json} (hnull : ∀ x, form x ≠ .null)
    (hform : ∀ x y, form x = form y → x = y) {value value' : Option α}
    (h : Json.ofOption form value = Json.ofOption form value') : value = value' := by
  cases value with
  | none =>
    cases value' with
    | none => rfl
    | some y => exact absurd h.symm (hnull y)
  | some x =>
    cases value' with
    | none => exact absurd h (hnull x)
    | some y => exact congrArg some (hform x y h)

theorem Json.map_string_inj {texts texts' : List String} (h : texts.map Json.string = texts'.map Json.string) :
    texts = texts' :=
  (List.map_inj_right fun _ _ => Json.string.inj).mp h

theorem Span.toJson_inj {s s' : Span} (h : s.toJson = s'.toJson) : s = s' := by
  cases s
  cases s'
  cases h
  rfl

theorem declarationToJson_inj {s s' : Span} (h : declarationToJson s = declarationToJson s') : s = s' := by
  simp only [declarationToJson, Json.object.injEq, List.cons.injEq, Prod.mk.injEq, true_and, and_true] at h
  exact Span.toJson_inj h

theorem Letter.toJson_inj {l l' : Letter} (h : l.toJson = l'.toJson) : l = l' := Letter.text_inj (Json.string.inj h)

/-! ## Tables -/

namespace Table

variable {κ α : Type}

theorem toJsonObject_inj {name : κ → String} (hname : ∀ k k', name k = name k' → k = k') {t u : Table κ Span}
    (h : t.toJsonObject name = u.toJsonObject name) : t = u := by
  apply ext_entries
  refine eq_of_map_eq (fun entry _ entry' _ he => ?_) (Json.object.inj h)
  obtain ⟨hkey, hplace⟩ := Prod.mk.inj he
  exact Prod.ext (hname _ _ hkey) (declarationToJson_inj hplace)

theorem eq_of_toJsonPairs {key : κ → Json} {value : α → Json} {t u : Table κ α}
    (hentry : ∀ e ∈ t.entries, ∀ e' ∈ u.entries, key e.1 = key e'.1 → value e.2 = value e'.2 → e = e')
    (h : t.toJsonPairs key value = u.toJsonPairs key value) : t = u := by
  apply ext_entries
  refine eq_of_map_eq (fun e he e' he' heq => ?_) (Json.array.inj h)
  simp only [Json.array.injEq, List.cons.injEq, and_true] at heq
  exact hentry e he e' he' heq.1 heq.2

end Table

/-! ## Moves -/

/-- What is written of an entry is its rule. -/
theorem ofEntry_of_toJson {e e' : Situation × Move} (hs : e.1.toJson = e'.1.toJson) (hm : e.2.toJson = e'.2.toJson) :
    Rule.ofEntry e = Rule.ofEntry e' := by
  simp only [Situation.toJson, Move.toJson, Letter.toJson, StackSymbol.toJson, Json.ofList, Json.object.injEq,
    List.cons.injEq, Prod.mk.injEq, Json.string.injEq, Json.array.injEq, true_and, and_true] at hs hm
  obtain ⟨hstate, hletter, htop⟩ := hs
  obtain ⟨hnext, hpush⟩ := hm
  have hnames : e.2.push.map StackSymbol.text = e'.2.push.map StackSymbol.text := by
    apply Json.map_string_inj
    rw [List.map_map, List.map_map]
    exact hpush
  rw [Rule.ofEntry, Rule.ofEntry, hstate, hletter, htop, hnext, hnames]

section Sound

variable {a b : Automaton} (ha : a.Sound) (hb : b.Sound)
include ha hb

/-- The rule of an entry of the table means that entry, in any sound automaton. -/
theorem eq_of_ofEntry {e e' : Situation × Move} (he : e ∈ a.moves.entries) (he' : e' ∈ b.moves.entries)
    (h : Rule.ofEntry e = Rule.ofEntry e') : e = e' := by
  have hmeaning := hb.entries e' he'
  rw [← h, ha.entries e he] at hmeaning
  exact Option.some.inj hmeaning

theorem Automaton.toJson_inj (h : a.toJson = b.toJson) : a = b := by
  simp only [Automaton.toJson, Json.object.injEq, List.cons.injEq, Prod.mk.injEq, Json.string.injEq, true_and,
    and_true] at h
  obtain ⟨hstates, halphabet, hstack, hinitial, hfinal, hrejecting, hmoves⟩ := h
  have hstates : a.states = b.states := Table.toJsonObject_inj accepts_state.text_inj hstates
  have halphabet : a.alphabet = b.alphabet := by
    refine Table.eq_of_toJsonPairs (fun e _ e' _ hkey hplace => ?_) halphabet
    exact Prod.ext (Letter.toJson_inj hkey) (declarationToJson_inj hplace)
  have hstack : a.stackAlphabet = b.stackAlphabet := by
    refine Json.ofOption_inj (fun symbols h => ?_) (fun _ _ => Table.toJsonObject_inj accepts_symbol.text_inj) hstack
    cases h
  have hinitial : a.initial = b.initial := accepts_state.text_inj _ _ hinitial
  have hfinal : a.final = b.final := Table.toJsonObject_inj accepts_state.text_inj hfinal
  have hrejecting : a.rejecting = b.rejecting := Table.toJsonObject_inj accepts_state.text_inj hrejecting
  have hmoves : a.moves = b.moves := by
    refine Table.eq_of_toJsonPairs (fun e he e' he' hsituation hmove => ?_) hmoves
    exact eq_of_ofEntry ha hb he he' (ofEntry_of_toJson hsituation hmove)
  cases a
  cases b
  simp only at hstates halphabet hstack hinitial hfinal hrejecting hmoves
  rw [hstates, halphabet, hstack, hinitial, hfinal, hrejecting, hmoves]

end Sound

/-! ## Runs -/

theorem Verdict.text_inj {v v' : Verdict} (h : v.text = v'.text) : v = v' := by
  cases v <;> cases v' <;> first | rfl | exact absurd h (by decide)

/-- A stack is known by its symbols in either order. -/
theorem Stack.symbols_inj {s s' : Stack} (h : s.symbols = s'.symbols) : s = s' := by
  cases s
  cases s'
  exact congrArg Stack.mk (List.reverse_inj.mp h)

theorem Configuration.toJson_inj {c c' : Configuration} (h : c.toJson = c'.toJson) : c = c' := by
  simp only [Configuration.toJson, Json.ofList, Json.object.injEq, List.cons.injEq, Prod.mk.injEq, Json.string.injEq,
    Json.array.injEq, Json.number.injEq, true_and, and_true] at h
  obtain ⟨hstate, hstack, hposition⟩ := h
  have hstate : c.state = c'.state := accepts_state.text_inj _ _ hstate
  have hstack : c.stack = c'.stack := by
    have hsymbols : c.stack.symbols = c'.stack.symbols := by
      refine eq_of_map_eq (fun x _ y _ hxy => ?_) hstack
      exact accepts_symbol.text_inj _ _ (Json.string.inj hxy)
    exact Stack.symbols_inj hsymbols
  cases c
  cases c'
  simp only at hstate hstack hposition
  rw [hstate, hstack, hposition]

/-- The steps of a run are moves of its automaton. -/
theorem mem_moves_of_runWithin {a : Automaton} {bound : Option Nat} {input : String} {r : Run}
    (h : a.runWithin bound input = some (.ok r)) : ∀ step ∈ r.trace, (step.situation, step.move) ∈ a.moves.entries := by
  obtain ⟨k, hk⟩ := exists_after_of_runWithin h
  have htrace : (Simulation.after a input k).trace = r.trace := (Simulation.finish_eq_some.mp hk).2.1
  exact htrace ▸ (Simulation.tracked_after a input k).moves

theorem Run.eq_of_toJson {a b : Automaton} (ha : a.Sound) (hb : b.Sound) {r r' : Run}
    (hr : ∀ step ∈ r.trace, (step.situation, step.move) ∈ a.moves.entries)
    (hr' : ∀ step ∈ r'.trace, (step.situation, step.move) ∈ b.moves.entries) (h : r.toJson = r'.toJson) : r = r' := by
  simp only [Run.toJson, Json.ofList, Json.object.injEq, List.cons.injEq, Prod.mk.injEq, Json.string.injEq,
    Json.array.injEq, true_and, and_true] at h
  obtain ⟨hverdict, htrace, hconfiguration⟩ := h
  have hverdict : r.verdict = r'.verdict := Verdict.text_inj hverdict
  have hconfiguration : r.configuration = r'.configuration := Configuration.toJson_inj hconfiguration
  have htrace : r.trace = r'.trace := by
    refine eq_of_map_eq (fun step hstep step' hstep' heq => ?_) htrace
    simp only [Step.toJson, Json.object.injEq, List.cons.injEq, Prod.mk.injEq, true_and, and_true] at heq
    have hentry := eq_of_ofEntry ha hb (hr step hstep) (hr' step' hstep') (ofEntry_of_toJson heq.1 heq.2)
    cases step
    cases step'
    cases hentry
    rfl
  cases r
  cases r'
  simp only at hverdict htrace hconfiguration
  rw [hverdict, htrace, hconfiguration]

/-- Two loaded automata that are written alike are the same, with the places of their
    names. So are runs that are written alike, of whatever automata on whatever inputs. -/
theorem serialized_inj :
    (∀ source source' a b, load source = .ok a → load source' = .ok b → a.toJson.render = b.toJson.render → a = b) ∧
      ∀ source source' a b, load source = .ok a → load source' = .ok b →
        ∀ input input' bound bound' r r', a.runWithin bound input = some (.ok r) →
          b.runWithin bound' input' = some (.ok r') → r.toJson.render = r'.toJson.render → r = r' := by
  refine ⟨?_, ?_⟩
  · intro source source' a b ha hb h
    exact Automaton.toJson_inj (sound_of_load ha) (sound_of_load hb) (Json.render_inj h)
  · intro source source' a b ha hb input input' bound bound' r r' hr hr' h
    exact Run.eq_of_toJson (sound_of_load ha) (sound_of_load hb) (mem_moves_of_runWithin hr) (mem_moves_of_runWithin hr')
      (Json.render_inj h)

/-- One state, and one move that comes back to it. -/
def oneMove : String :=
  "states:q\nalphabet:a\ninitial_state:q\nfinal_states:q\ntransition_function:\n q:\n  (a,a)->q[]"

/-- A note below a definition leaves what is written of its automaton as it is, and a
    greater bound what is written of a run. -/
theorem serialized_of_oneMove :
    (∃ a b, load oneMove = .ok a ∧ load (oneMove ++ "\n#") = .ok b ∧ a.toJson.render = b.toJson.render ∧ a = b) ∧
      load carousel = .ok .carousel ∧
      ∃ r r', Automaton.carousel.runWithin (some 3) "" = some (.ok r) ∧
        Automaton.carousel.runWithin (some 9) "" = some (.ok r') ∧ r.toJson.render = r'.toJson.render ∧ r = r' := by
  obtain ⟨hautomata, hruns⟩ := serialized_inj
  refine ⟨?_, load_carousel, ?_⟩
  · have hloads : ∃ a ∈ (load oneMove).toOption, ∃ b ∈ (load (oneMove ++ "\n#")).toOption, a = b := by decide +kernel
    obtain ⟨a, ha, b, hb, hsame⟩ := hloads
    have hloada := mem_toOption_load.mp ha
    have hloadb := mem_toOption_load.mp hb
    have hrender : a.toJson.render = b.toJson.render := by rw [hsame]
    exact ⟨a, b, hloada, hloadb, hrender, hautomata _ _ a b hloada hloadb hrender⟩
  · have hfinish : (Simulation.after .carousel "" 3).finish =
        some ((Simulation.after .carousel "" 3).toRun .accepted) := rfl
    have hrun3 := runWithin_of_finish hfinish (by decide : _ ≤ 3)
    have hrun9 := runWithin_of_finish hfinish (by decide : _ ≤ 9)
    exact ⟨_, _, hrun3, hrun9, rfl,
      hruns _ _ _ _ load_carousel load_carousel "" "" (some 3) (some 9) _ _ hrun3 hrun9 rfl⟩

end Pushdown
