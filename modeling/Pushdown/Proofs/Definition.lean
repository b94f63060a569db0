/-
  Pushdown.Proofs.Definition — what becomes of what was read.

  The report and the records are made finding by finding, and what follows depends on all
  findings together. Where one is an error there is no automaton and only they are noted
  (`conclude_of_error`); else the automaton is what the check built, and what was loaded is
  noted behind them (`conclude_of_clean`). `ofReading_eq` leaves the records aside.

  Loading answers the automaton, or the errors of the report where there is none
  (`load_eq_ok_iff`, `load_eq_error_iff`).
-/

import Pushdown.Definition
import Pushdown.Proofs.Report

namespace Pushdown

namespace Definition

variable {findings : List Finding} {b : Blueprint}

theorem conclude_of_error (h : findings.any Finding.isError = true) :
    conclude findings b = ⟨⟨findings, none⟩, findings.filterMap fun f => f.entry.record?⟩ := by
  have hflag : (Report.empty.emitAll (findings.map Finding.entry)).result.hasError = true :=
    (Report.hasError_ofFindings findings).trans h
  rw [conclude, ← Report.journal_emitAll_entries]
  simp [Bind.bind, hflag]

theorem conclude_of_clean (h : findings.any Finding.isError = false) :
    conclude findings b =
      ⟨⟨findings, b.automaton?⟩, (findings.filterMap fun f => f.entry.record?) ++ [b.summary]⟩ := by
  have hflag : (Report.empty.emitAll (findings.map Finding.entry)).result.hasError = false :=
    (Report.hasError_ofFindings findings).trans h
  rw [conclude, ← Report.journal_emitAll_entries]
  simp [Bind.bind, hflag]

theorem ofReading_eq (r : Reading) :
    ofReading r = ⟨r.findings ++ (checkSections r.sections).findings,
      if (r.findings ++ (checkSections r.sections).findings).any Finding.isError then none
      else (checkSections r.sections).value.automaton?⟩ := by
  rw [ofReading, compile]
  cases h : (r.findings ++ (checkSections r.sections).findings).any Finding.isError with
  | true => rw [conclude_of_error h, if_pos rfl]
  | false => rw [conclude_of_clean h, if_neg Bool.false_ne_true]

/-- What is wrong with a text: first with its lines, then with its sections. -/
theorem findings_ofSource (source : String) :
    (ofSource source).findings =
      (readDefinition source).findings ++ (checkSections (readDefinition source).sections).findings := by
  rw [ofSource, ofReading_eq]

theorem automaton_ofSource (source : String) :
    (ofSource source).automaton =
      if (ofSource source).findings.any Finding.isError then none
      else (checkSections (readDefinition source).sections).value.automaton? := by
  rw [ofSource, ofReading_eq]

end Definition

/-! ## Loading -/

section Loading

variable {source : String} {a : Automaton} {m : Malformed}

theorem load_of_some (h : (Definition.ofSource source).automaton = some a) : load source = .ok a := by
  have hcompile : (Definition.compile (readDefinition source)).result.automaton = some a := h
  rw [load, loadRecorded, Recorded.result_bind, hcompile]
  rfl

theorem load_of_none (h : (Definition.ofSource source).automaton = none) :
    load source = .error ⟨(Definition.ofSource source).report.diagnostics source⟩ := by
  have hcompile : (Definition.compile (readDefinition source)).result.automaton = none := h
  rw [load, loadRecorded, Recorded.result_bind, hcompile]
  rfl

theorem load_eq_ok_iff : load source = .ok a ↔ (Definition.ofSource source).automaton = some a := by
  cases h : (Definition.ofSource source).automaton with
  | none => simp [load_of_none h]
  | some b => simp [load_of_some h]

theorem load_eq_error_iff :
    load source = .error m ↔
      (Definition.ofSource source).automaton = none ∧ m = ⟨(Definition.ofSource source).report.diagnostics source⟩ := by
  cases h : (Definition.ofSource source).automaton with
  | none => simp [load_of_none h, eq_comm]
  | some b => simp [load_of_some h]

/-- What a load gives of a text that is at hand can be computed. -/
theorem mem_toOption_load : a ∈ (load source).toOption ↔ load source = .ok a := by
  cases h : load source <;> simp [Except.toOption]

theorem isSome_toOption_load : (load source).toOption.isSome ↔ ∃ a, load source = .ok a := by
  simp only [Option.isSome_iff_exists, ← Option.mem_def, mem_toOption_load]

/-- To load notes nothing but what is noted on the way to the definition. -/
theorem journal_loadRecorded (source : String) :
    (loadRecorded source).journal = (Definition.compile (readDefinition source)).journal := by
  rw [loadRecorded, Recorded.journal_bind]
  split <;> exact List.append_nil _

end Loading

end Pushdown
