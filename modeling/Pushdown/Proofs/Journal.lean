/-
  Pushdown.Proofs.Journal — what is noted down is what was done.

  A load notes the errors and the warnings of its report, as it comes upon them. What was
  loaded is noted once it is known that no error was found, and before it is known that
  there is an initial state: so that a summary is noted exactly if the load succeeds is up
  to the checks (`automaton_eq_none`).

  A simulation notes a step before it takes it and its end before it has a verdict.
  `told_step`: each step keeps that the notes are the trace, and behind it, once there is a
  verdict, the end; a missing move comes before the end.

  `journals_tell`: so the records of a load follow from its report and what became of it,
  and those of a run from the run alone. A run that gives up has noted its steps and
  nothing else, though it looks for the next move before it does, and so has at any time a
  run that never ends.
-/

import Pushdown.Proofs.Diagnosis
import Pushdown.Proofs.Run.Agreement
import Pushdown.Proofs.Simulation.Replay
import Pushdown.Proofs.Simulation.Verdict
import Pushdown.Report.Excerpt

namespace Pushdown

open Simulation

/-! ## What there is to tell -/

namespace Entry

/-- Errors and warnings are noted. -/
def isNoted (e : Entry) : Bool := e.remark.severity == .error || e.remark.severity == .warning

/-- The record of an entry. Its notes are no part of it. -/
def record (e : Entry) : Record := ⟨.debug, "definition " ++ e.remark.severity.label ++ ": " ++ e.remark.message⟩

end Entry

/-- The record of a step is its text. -/
def Step.record (s : Step) : Record := ⟨.trace, s.text⟩

namespace Run

/-- What another step of a run would look at. -/
def situation (r : Run) (input : String) : Situation :=
  ⟨r.configuration.state, Letter.ofIndex input.toList r.trace.length, r.configuration.stack.top⟩

/-- Its steps in order, the letter and the symbol that there is no move for if it is stuck,
    and how it ended. -/
def journal (r : Run) (input : String) : List Record :=
  r.trace.map Step.record ++
    (if r.verdict = .stuck then
      [⟨.trace, r.configuration.state.name ++ ": no transition for " ++ (r.situation input).text⟩]
    else []) ++
    [⟨.debug, r.verdict.text ++ " in " ++ r.configuration.state.name ++ " after " ++ Nat.repr r.trace.length ++ " steps"⟩]

end Run

/-- A load has noted its report, and what it loaded. -/
structure LoadTold (source : String) : Prop where
  /-- What is noted belongs to the load that is answered. -/
  result : (loadRecorded source).result = load source
  loaded : ∀ a records, loadRecorded source = ⟨.ok a, records⟩ →
    records =
      ((Definition.ofSource source).report.entries.toList.filter Entry.isNoted).map Entry.record ++
        [⟨.debug, "loaded automaton: " ++ Nat.repr a.states.keys.length ++ " states, " ++
          Nat.repr a.alphabet.keys.length ++ " letters, " ++ Nat.repr a.moves.keys.length ++ " transitions"⟩]
  refused : ∀ m records, loadRecorded source = ⟨.error m, records⟩ →
    records =
      ((Definition.ofSource source).report.entries.toList.filter Entry.isNoted).map Entry.record

/-- A run, with a bound or without, has noted what it did. -/
structure RunTold (a : Automaton) (bound : Option Nat) (input : String) : Prop where
  /-- What is noted belongs to the run that is answered. -/
  result : (a.runRecorded bound input).map Recorded.result = a.runWithin bound input
  ended : ∀ r records, a.runRecorded bound input = some ⟨.ok r, records⟩ →
    records = r.journal input ∧ (r.verdict = .stuck → a.move? (r.situation input) = none)
  exceeded : ∀ e records, a.runRecorded bound input = some ⟨.error e, records⟩ →
    bound = some e.limit ∧ records = (after a input e.limit).trace.map Step.record ∧ records.length = e.limit
  /-- As long as there is no verdict, be it for ever. -/
  pending : ∀ k, (after a input k).verdict = none →
    (after a input k).journal = (after a input k).trace.map Step.record

/-! ## Loading -/

theorem record?_eq (e : Entry) : e.record? = if e.isNoted then some e.record else none := by
  unfold Entry.record?
  split <;> next h => simp [Entry.isNoted, Entry.record, h, Severity.label]

/-- What is noted of findings is what their report has to tell. -/
theorem filterMap_record? (findings : List Finding) :
    (findings.filterMap fun f => f.entry.record?) =
      ((Report.ofFindings findings).entries.toList.filter Entry.isNoted).map Entry.record := by
  rw [Report.toList_entries_ofFindings, ← List.filterMap_eq_map, List.filterMap_filter, List.filterMap_map]
  exact congrArg (List.filterMap · findings) (funext fun f => record?_eq f.entry)

theorem length_keys {κ α : Type} (t : Table κ α) : t.keys.length = t.size := List.length_map ..

theorem summary_of_automaton? {b : Blueprint} {a : Automaton} (h : b.automaton? = some a) :
    b.summary = ⟨.debug, "loaded automaton: " ++ Nat.repr a.states.keys.length ++ " states, " ++
      Nat.repr a.alphabet.keys.length ++ " letters, " ++ Nat.repr a.moves.keys.length ++ " transitions"⟩ := by
  obtain ⟨start, -, rfl⟩ := Option.map_eq_some_iff.mp h
  rw [length_keys, length_keys, length_keys]
  rfl

/-- The records of a load are those of its report, with the summary behind them if no error
    was found. -/
theorem journal_load (source : String) :
    (loadRecorded source).journal =
      ((Definition.ofSource source).report.entries.toList.filter Entry.isNoted).map Entry.record ++
        if (Definition.ofSource source).findings.any Finding.isError then []
        else [(checkSections (readDefinition source).sections).value.summary] := by
  rw [journal_loadRecorded, Definition.compile, Definition.report, ← filterMap_record?, Definition.findings_ofSource]
  split
  · next h => rw [Definition.conclude_of_error h, List.append_nil]
  · next h => rw [Definition.conclude_of_clean (Bool.eq_false_iff.mpr h)]

theorem loadTold (source : String) : LoadTold source where
  result := rfl
  loaded := by
    intro a records h
    have hsome := load_eq_ok_iff.mp (congrArg Recorded.result h)
    obtain rfl : (loadRecorded source).journal = records := congrArg Recorded.journal h
    rw [Definition.automaton_ofSource] at hsome
    rw [journal_load]
    split at hsome
    · cases hsome
    · next hclean => rw [if_neg hclean, summary_of_automaton? hsome]
  refused := by
    intro m records h
    have herror : (Definition.ofSource source).findings.any Finding.isError = true :=
      automaton_eq_none.mp (exists_error_iff.mp ⟨m, congrArg Recorded.result h⟩)
    obtain rfl : (loadRecorded source).journal = records := congrArg Recorded.journal h
    rw [journal_load, if_pos herror, List.append_nil]

/-! ## Simulating -/

namespace Simulation

/-- What is noted of the end of a simulation. -/
def lastNotes (s : Simulation) : Option Verdict → List Event
  | none => []
  | some v => (if v = .stuck then [.noMove s.situation] else []) ++ [.ended v s.configuration.state s.trace.length]

/-- A simulation has noted its trace, and its end once it has a verdict. -/
def Told (s : Simulation) : Prop := s.events.toList = s.trace.map .moved ++ s.lastNotes s.verdict

@[simp] theorem events_note (s : Simulation) (e : Event) : (s.note e).events.toList = s.events.toList ++ [e] :=
  Array.toList_push

@[simp] theorem events_take (s : Simulation) (m : Move) : (s.take m).events = s.events := rfl

theorem events_settle (s : Simulation) (v : Verdict) :
    (s.settle (some v)).events.toList = s.events.toList ++ [.ended v s.configuration.state s.trace.length] :=
  Array.toList_push

theorem told_start (a : Automaton) (input : String) : (start a input).Told := rfl

/-- A verdict is noted together with what was noted before it. -/
theorem told_settle {s : Simulation} {v : Verdict} (hv : v ≠ .stuck) (hpending : s.verdict = none) (h : s.Told) :
    (s.settle (some v)).Told := by
  unfold Told at h ⊢
  rw [events_settle, h, hpending, verdict_settle hpending, trace_settle]
  simp [lastNotes, hv]

theorem told_step {s : Simulation} (h : s.Told) : s.step.2.Told := by
  rcases step_cases s with ⟨v, -, e⟩ | ⟨hv, -, e⟩ | ⟨m, hv, -, e⟩ <;> rw [e]
  · exact h
  · unfold Told at h ⊢
    rw [events_settle, events_note, h, hv, trace_settle, trace_note, verdict_settle (by simpa using hv)]
    simp [lastNotes]
  · have hmoved : ((s.note (.moved ⟨s.situation, m⟩)).take m).Told := by
      unfold Told at h ⊢
      rw [events_take, events_note, h, trace_take]
      simp [lastNotes, hv]
    cases hq : s.automaton.verdictOf? m.state with
    | none => exact hmoved
    | some v =>
      have hne : v ≠ .stuck := fun hs => Automaton.verdictOf?_ne_stuck (hs ▸ hq)
      exact told_settle hne (by simpa using hv) hmoved

theorem told_after (a : Automaton) (input : String) (k : Nat) : (after a input k).Told := by
  induction k with
  | zero => exact told_start a input
  | succ k ih => exact told_step ih

theorem journal_after (a : Automaton) (input : String) (k : Nat) :
    (after a input k).journal = (after a input k).trace.map Step.record ++
      ((after a input k).lastNotes (after a input k).verdict).map Event.record := by
  have htold : (after a input k).events.toList = _ := told_after a input k
  rw [journal, htold, List.map_append, List.map_map]
  rfl

end Simulation

/-! ## Running -/

section Running

variable {a : Automaton} {input : String} {k limit : Nat} {r : Run}

theorem journal_of_pending (hv : (after a input k).verdict = none) :
    (after a input k).journal = (after a input k).trace.map Step.record := by
  rw [journal_after, hv]
  exact List.append_nil _

/-- What another step would look at is told by the run that it would come after. -/
theorem situation_of_finish (hf : (after a input k).finish = some r) : (after a input k).situation = r.situation input := by
  obtain ⟨-, htrace, hconfiguration⟩ := finish_eq_some.mp hf
  have hletter := letter_of_unread (tracked_after a input k).unread
  rw [Run.situation, ← htrace, ← hconfiguration, ← hletter]
  rfl

theorem journal_of_finish (hf : (after a input k).finish = some r) : (after a input k).journal = r.journal input := by
  obtain ⟨hverdict, htrace, hconfiguration⟩ := finish_eq_some.mp hf
  have hstate : (r.situation input).state = r.configuration.state := rfl
  rw [journal_after, hverdict, Run.journal, lastNotes, situation_of_finish hf, htrace, hconfiguration, List.append_assoc,
    List.map_append]
  split <;> rfl

theorem move?_of_stuck (hf : (after a input k).finish = some r) (hs : r.verdict = .stuck) :
    a.move? (r.situation input) = none := by
  have hverdict : (after a input k).verdict = some .stuck := hs ▸ (finish_eq_some.mp hf).1
  obtain ⟨-, -, -, -, -, hnone⟩ := grounds_of_stuck hverdict
  rwa [situation_of_finish hf] at hnone

/-- What a run with a bound answers and has noted is what some number of steps has. The
    induction is on its turns: without a verdict as many moves were taken as steps. -/
theorem untilVerdictWithin_cases (hv : (after a input k).verdict = none) (hk : k ≤ limit) :
    (∃ j r, (after a input k).untilVerdictWithin limit = ⟨.ok r, (after a input j).journal⟩ ∧
      (after a input j).finish = some r) ∨
    (after a input k).untilVerdictWithin limit = ⟨.error ⟨limit⟩, (after a input limit).journal⟩ ∧
      (after a input limit).verdict = none := by
  have htaken : (after a input k).past.size = k := length_trace_after hv
  generalize hs : after a input k = s at hv htaken ⊢
  fun_induction untilVerdictWithin limit s generalizing k with
  | case1 s hlimit =>
    obtain rfl : k = limit := by omega
    exact .inr ⟨by rw [hs], hs ▸ hv⟩
  | case2 s hgo v t hstep =>
    subst hs
    obtain ⟨rfl, hverdict⟩ := step_eq_halted.mp hstep
    exact .inl ⟨k + 1, _, rfl, finish_of_verdict hverdict⟩
  | case3 s hgo t hstep ih =>
    subst hs
    obtain ⟨hsome, hnext⟩ := past_of_pending hstep
    obtain ⟨rfl, hpending⟩ := step_eq_pending.mp hstep
    have hbelow : ¬ limit ≤ k := by
      intro hle
      exact hgo ⟨htaken.symm ▸ hle, hsome⟩
    exact ih (k := k + 1) (by omega) rfl hpending (by omega)

theorem runRecorded_cases {bound : Option Nat} {recorded : Recorded (Except StepLimitExceeded Run)}
    (h : a.runRecorded bound input = some recorded) :
    (∃ k r, recorded = ⟨.ok r, (after a input k).journal⟩ ∧ (after a input k).finish = some r) ∨
    ∃ limit, bound = some limit ∧ recorded = ⟨.error ⟨limit⟩, (after a input limit).journal⟩ ∧
      (after a input limit).verdict = none := by
  cases bound with
  | none =>
    obtain ⟨ending, hending, rfl⟩ := Option.map_eq_some_iff.mp h
    obtain ⟨k, hf, hjournal⟩ := untilVerdict_start.mp hending
    exact .inl ⟨k, ending.result, by rw [hjournal], hf⟩
  | some limit =>
    obtain rfl := Option.some.inj h
    rcases @untilVerdictWithin_cases a input 0 limit rfl (Nat.zero_le limit) with hended | hexceeded
    · exact .inl hended
    · exact .inr ⟨limit, rfl, hexceeded⟩

end Running

theorem runTold (a : Automaton) (bound : Option Nat) (input : String) : RunTold a bound input where
  result := a.map_result_runRecorded bound input
  ended := by
    intro r records h
    rcases runRecorded_cases h with ⟨k, r', e, hf⟩ | ⟨limit, -, e, -⟩
    · cases e
      exact ⟨journal_of_finish hf, move?_of_stuck hf⟩
    · cases e
  exceeded := by
    intro e records h
    rcases runRecorded_cases h with ⟨k, r', e', -⟩ | ⟨limit, hbound, e', hv⟩
    · cases e'
    · cases e'
      refine ⟨hbound, journal_of_pending hv, ?_⟩
      rw [journal_of_pending hv, List.length_map, length_trace_after hv]
  pending k hv := journal_of_pending hv

/-- Whatever is loaded, and whatever input runs through whatever automaton: the records of
    the load tell its report and what was loaded, those of the run its steps and how it
    ended. -/
theorem journals_tell (source : String) (a : Automaton) (bound : Option Nat) (input : String) :
    LoadTold source ∧ RunTold a bound input :=
  ⟨loadTold source, runTold a bound input⟩

end Pushdown
