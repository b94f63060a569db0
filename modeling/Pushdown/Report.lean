/-
  Pushdown.Report — what is said about a definition: remarks in the order they were
  made, some followed by notes, and whether one of them is an error.

  Errors and warnings are noted down as they are added; their notes are not.
-/

import Pushdown.Journal
import Pushdown.Json
import Pushdown.Text.Offset

namespace Pushdown

inductive Severity where
  | info
  | warning
  | error
  | help
  deriving DecidableEq, Repr

namespace Severity

/-- The name of a severity in a report's JSON form. -/
def title : Severity → String
  | info => "Info"
  | warning => "Warning"
  | error => "Error"
  | help => "Help"

end Severity

/-- One thing said, with the place it is about if there is one. -/
structure Remark where
  severity : Severity
  message : String
  place : Option Span
  deriving DecidableEq, Repr

/-- A remark of a report, followed by a chain of notes: each one belongs to the one
    before it. -/
structure Entry where
  remark : Remark
  notes : List Remark
  deriving DecidableEq, Repr

namespace Entry

/-- The remark and its notes, in the order they are shown. -/
def chain (e : Entry) : List Remark := e.remark :: e.notes

/-- Makes `note`, with its own notes, the one note of an entry: an earlier one is given up. -/
def annotate (e note : Entry) : Entry := { e with notes := note.chain }

def isError (e : Entry) : Bool := e.remark.severity == .error

/-- What is noted down when an entry is added. -/
def record? (e : Entry) : Option Record :=
  match e.remark.severity with
  | .error => some ⟨.debug, "definition error: " ++ e.remark.message⟩
  | .warning => some ⟨.debug, "definition warning: " ++ e.remark.message⟩
  | .info => none
  | .help => none

end Entry

structure Report where
  entries : Array Entry
  hasError : Bool
  deriving DecidableEq, Repr

namespace Report

def empty : Report := ⟨#[], false⟩

/-- Notes an entry down and adds it at the end. Only its own severity counts, never that
    of its notes. -/
def emit (r : Report) (e : Entry) : Recorded Report :=
  ⟨⟨r.entries.push e, r.hasError || e.isError⟩, e.record?.toList⟩

/-- Adds entries one after the other. -/
def emitAll (r : Report) (entries : List Entry) : Recorded Report := entries.foldlM emit r

def ofEntries (entries : List Entry) : Report := (empty.emitAll entries).result

@[simp] theorem toList_entries_emit (r : Report) (e : Entry) :
    (r.emit e).result.entries.toList = r.entries.toList ++ [e] := by
  simp [emit]

@[simp] theorem hasError_emit (r : Report) (e : Entry) :
    (r.emit e).result.hasError = (r.hasError || e.isError) := rfl

end Report

/-! ## JSON forms -/

def Span.toJson (s : Span) : Json := .array [.number s.start, .number s.stop]

/-- A chain of remarks, each holding the next as its child. -/
def Remark.chainToJson : List Remark → Json
  | [] => .null
  | r :: rest => .object
      [("message", .string r.message), ("span", .ofOption Span.toJson r.place),
        ("level", .string r.severity.title), ("child", chainToJson rest)]

def Report.toJson (r : Report) : Json := .object
  [("logs", .ofList (fun e => Remark.chainToJson e.chain) r.entries.toList),
    ("has_error", .bool r.hasError)]

end Pushdown
