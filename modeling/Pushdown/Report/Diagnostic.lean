/-
  Pushdown.Report.Diagnostic — the errors of a report for a reader without the text: a
  line number and a message each.
-/

import Pushdown.Report

namespace Pushdown

structure Diagnostic where
  /-- The 1-based line; none when the definition as a whole is at fault. -/
  line : Option Nat
  message : String
  deriving DecidableEq, Repr

def Diagnostic.shown (d : Diagnostic) : String :=
  match d.line with
  | some n => "line " ++ Nat.repr n ++ ": " ++ d.message
  | none => d.message

/-- Why a definition was refused. -/
structure Malformed where
  diagnostics : List Diagnostic
  deriving DecidableEq, Repr

/-- Only the first diagnostic is named. -/
def Malformed.message (m : Malformed) : String :=
  "malformed definition: " ++ ((m.diagnostics.head?.map Diagnostic.shown).getD "")

/-- The diagnostic of an error; other entries and all notes have none. -/
def Entry.diagnostic? (source : List Char) (e : Entry) : Option Diagnostic :=
  if e.isError then some ⟨e.remark.place.map fun s => Text.lineOf source s.start, e.remark.message⟩
  else none

def Report.diagnostics (source : String) (r : Report) : List Diagnostic :=
  r.entries.toList.filterMap (Entry.diagnostic? source.toList)

end Pushdown
