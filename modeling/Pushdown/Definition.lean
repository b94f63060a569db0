/-
  Pushdown.Definition — from the text of a definition to its automaton.

  A definition has an automaton unless something in it is an error; its findings are
  those of reading, in the order of the text, then those of checking. Each finding is noted
  down as it is added to the report; when all are, and none is an error, so is what was
  loaded.
-/

import Pushdown.Automaton.Check
import Pushdown.Report.Diagnostic
import Pushdown.Section.Read

namespace Pushdown

structure Definition where
  findings : List Finding
  automaton : Option Automaton

namespace Definition

/-- What becomes of a definition with these findings. Where none is an error what was loaded
    is noted, and only then the initial state asked for: that there is one is up to the
    checks. -/
def conclude (findings : List Finding) (b : Blueprint) : Recorded Definition := do
  let report ← Report.empty.emitAll (findings.map Finding.entry)
  if report.hasError then return ⟨findings, none⟩
  Recorded.note b.summary
  return ⟨findings, b.automaton?⟩

def compile (r : Reading) : Recorded Definition :=
  let checked := checkSections r.sections
  conclude (r.findings ++ checked.findings) checked.value

def ofReading (r : Reading) : Definition := (compile r).result

/-- Sections that no text need hold. -/
def ofSections (sections : List (Located Section)) : Definition := ofReading ⟨sections, []⟩

def ofSource (source : String) : Definition := ofReading (readDefinition source)

def report (d : Definition) : Report := Report.ofFindings d.findings

end Definition

/-- The automaton that a text defines, or every error in the text; warnings are dropped. -/
def loadRecorded (source : String) : Recorded (Except Malformed Automaton) := do
  let definition ← Definition.compile (readDefinition source)
  match definition.automaton with
  | some a => return .ok a
  | none => return .error ⟨definition.report.diagnostics source⟩

def load (source : String) : Except Malformed Automaton := (loadRecorded source).result

end Pushdown
