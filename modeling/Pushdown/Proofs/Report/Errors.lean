/-
  Pushdown.Proofs.Report.Errors — the errors of a report can be read off its text.

  In colour, a line that begins bold and red tells of an error, and there is no other such
  line as long as every message stands on one (`errorLines_render`): the lines of an
  excerpt begin bold and cyan. In JSON, the errors are the logs of that level, and each
  gives its diagnostic (`loggedErrors_toJson`).
-/

import Pushdown.Proofs.Report.Excerpt
import Pushdown.Proofs.Text.Quoted
import Pushdown.Report.Diagnostic

namespace Pushdown

open Text

/-! ## In colour -/

/-- What the line that tells of an error begins with. -/
def errorMark : List Char := (Ansi.bold ++ Ansi.red).toList

/-- The line that tells of an error. -/
def errorHeader (message : String) : String := Remark.header ⟨.error, message, none⟩

/-- The lines of a text that tell of an error. -/
def errorLines (text : List Char) : List (List Char) := (terminatedLines text).filter errorMark.isPrefixOf

theorem errorMark_isPrefixOf (s : Severity) (rest : List Char) :
    errorMark.isPrefixOf (Ansi.bold.toList ++ (s.colour.toList ++ rest)) = (s == .error) := by
  cases s <;> rfl

theorem lineFeed_notMem_colour (s : Severity) : '\n' ∉ s.colour.toList := by
  cases s <;> exact notMem_literal (by decide)

/-- A line in bold and in the colour of a severity tells of an error if that is the severity
    of errors. -/
theorem errorLines_coloured (s : Severity) {rest : List Char} (h : '\n' ∉ rest) (after : List Char) :
    errorLines (Ansi.bold.toList ++ (s.colour.toList ++ (rest ++ '\n' :: after))) =
      (if s = .error then [Ansi.bold.toList ++ (s.colour.toList ++ (rest ++ ['\n']))] else []) ++ errorLines after := by
  have hline : '\n' ∉ Ansi.bold.toList ++ (s.colour.toList ++ rest) := by
    simp only [List.mem_append, not_or]
    exact ⟨notMem_literal (by decide), lineFeed_notMem_colour s, h⟩
  have hsplit := terminatedLines_append hline after
  simp only [List.append_assoc] at hsplit
  rw [errorLines, hsplit, List.filter_cons, errorMark_isPrefixOf, errorLines]
  by_cases hs : s = .error
  · simp [hs]
  · simp [hs]

/-! ### Excerpts -/

theorem lineFeed_notMem_trimLineEnd {line : List Char} (h : '\n' ∉ line) : '\n' ∉ trimLineEnd line := by
  intro hm
  exact h (List.mem_reverse.mp ((List.dropWhile_sublist _).subset (List.mem_reverse.mp hm)))

theorem lineFeed_notMem_trimmed (text : List Char) : ∀ line ∈ terminatedLines text, '\n' ∉ trimLineEnd line := by
  induction text using Text.line_induction with
  | last line h =>
    cases line with
    | nil => nofun
    | cons c rest =>
      rw [terminatedLines_of_notMem h (List.cons_ne_nil _ _)]
      exact List.forall_mem_singleton.mpr (lineFeed_notMem_trimLineEnd h)
  | more line after h ih =>
    rw [terminatedLines_append h]
    refine List.forall_mem_cons.mpr ⟨?_, ih⟩
    rw [SourceLine.trimLineEnd_lineFeed]
    exact lineFeed_notMem_trimLineEnd h

theorem lineFeed_notMem_marks (s : Span) (offset : Nat) (text : List Char) : '\n' ∉ s.marks offset text := by
  induction text generalizing offset with
  | nil => nofun
  | cons c rest ih =>
    rw [Span.marks]
    refine List.not_mem_cons_of_ne_of_not_mem ?_ (ih _)
    split
    · decide
    · split <;> decide

/-- The text of a line of an excerpt and its marks are on one line each. -/
def ExcerptLine.OneLine (l : ExcerptLine) : Prop := '\n' ∉ l.text ∧ '\n' ∉ l.marks

theorem excerptFrom_oneLine {s : Span} {lines : List (List Char)} (h : ∀ line ∈ lines, '\n' ∉ trimLineEnd line)
    (number offset : Nat) : ∀ l ∈ excerptFrom s number offset lines, l.OneLine := by
  induction lines generalizing number offset with
  | nil => nofun
  | cons line rest ih =>
    obtain ⟨hline, hrest⟩ := List.forall_mem_cons.mp h
    exact List.forall_mem_cons.mpr ⟨⟨hline, lineFeed_notMem_marks _ _ _⟩, ih hrest _ _⟩

theorem errorLines_excerptLine {l : ExcerptLine} (h : l.OneLine) (width : Nat) (after : List Char) :
    errorLines ((l.render width).toList ++ after) = errorLines after := by
  have hnumber : '\n' ∉ (alignRight width l.number).toList := by
    simp [alignRight, blanks, Json.lineFeed_notMem_digits]
  have hblanks : '\n' ∉ (blanks (width + 3)).toList := by simp [blanks]
  have hfirst : '\n' ∉ (alignRight width l.number).toList ++ (" | ".toList ++ (Ansi.reset.toList ++ l.text)) := by
    simp only [List.mem_append, not_or]
    exact ⟨hnumber, notMem_literal (by decide), notMem_literal (by decide), h.1⟩
  have hsecond : '\n' ∉ (blanks (width + 3)).toList ++ (l.marks ++ Ansi.reset.toList) := by
    simp only [List.mem_append, not_or]
    exact ⟨hblanks, h.2, notMem_literal (by decide)⟩
  -- both lines are in the colour of what is no error
  have hrender : (l.render width).toList ++ after =
      Ansi.bold.toList ++ (Severity.info.colour.toList ++
        (((alignRight width l.number).toList ++ (" | ".toList ++ (Ansi.reset.toList ++ l.text))) ++
          '\n' :: (Ansi.bold.toList ++ (Severity.info.colour.toList ++
            (((blanks (width + 3)).toList ++ (l.marks ++ Ansi.reset.toList)) ++ '\n' :: after))))) := by
    simp [ExcerptLine.render, Severity.colour]
  rw [hrender, errorLines_coloured .info hfirst, errorLines_coloured .info hsecond]
  rfl

theorem errorLines_excerpt {lines : List ExcerptLine} (h : ∀ l ∈ lines, l.OneLine) (width : Nat) (after : List Char) :
    errorLines ((String.join (lines.map (ExcerptLine.render width))).toList ++ after) = errorLines after := by
  induction lines with
  | nil => rfl
  | cons l rest ih =>
    obtain ⟨hl, hrest⟩ := List.forall_mem_cons.mp h
    rw [List.map_cons, String.join_cons, String.toList_append, List.append_assoc, errorLines_excerptLine hl, ih hrest]

/-! ### Remarks -/

/-- A remark whose message stands on one line. -/
def Remark.OneLine (r : Remark) : Prop := '\n' ∉ r.message.toList

theorem errorLines_header {r : Remark} (h : r.OneLine) (after : List Char) :
    errorLines (r.header.toList ++ after) =
      (if r.severity = .error then [(errorHeader r.message).toList] else []) ++ errorLines after := by
  have hlabel : '\n' ∉ r.severity.label.toList := by cases r.severity <;> exact notMem_literal (by decide)
  have hrest : '\n' ∉ r.severity.label.toList ++ (Ansi.reset.toList ++ (Ansi.bold.toList ++ (": ".toList ++
      (r.message.toList ++ Ansi.reset.toList)))) := by
    simp only [List.mem_append, not_or]
    exact ⟨hlabel, notMem_literal (by decide), notMem_literal (by decide), notMem_literal (by decide), h,
      notMem_literal (by decide)⟩
  have hheader : ∀ after, r.header.toList ++ after =
      Ansi.bold.toList ++ (r.severity.colour.toList ++ ((r.severity.label.toList ++ (Ansi.reset.toList ++
        (Ansi.bold.toList ++ (": ".toList ++ (r.message.toList ++ Ansi.reset.toList))))) ++ '\n' :: after)) := by
    intro after
    simp [Remark.header]
  rw [hheader, errorLines_coloured _ hrest, ← hheader [], List.append_nil]
  by_cases hs : r.severity = .error
  · have hsame : r.header = errorHeader r.message := by rw [errorHeader, Remark.header, Remark.header, hs]
    rw [if_pos hs, if_pos hs, hsame]
  · rw [if_neg hs, if_neg hs]

theorem errorLines_remark {r : Remark} (h : r.OneLine) (source after : List Char) :
    errorLines ((r.render source).toList ++ after) =
      (if r.severity = .error then [(errorHeader r.message).toList] else []) ++ errorLines after := by
  unfold Remark.render
  split
  · exact errorLines_header h after
  · next s _ =>
    have hexcerpt : ∀ l ∈ excerpt source s, l.OneLine :=
      excerptFrom_oneLine (lineFeed_notMem_trimmed (s.touchedText source)) _ _
    rw [String.toList_append, List.append_assoc, errorLines_header h, errorLines_excerpt hexcerpt]

theorem errorLines_notes {notes : List Remark} (h : ∀ r ∈ notes, r.severity ≠ .error ∧ r.OneLine)
    (source after : List Char) :
    errorLines ((String.join (notes.map (Remark.render source))).toList ++ after) = errorLines after := by
  induction notes with
  | nil => rfl
  | cons r rest ih =>
    obtain ⟨⟨hr, hline⟩, hrest⟩ := List.forall_mem_cons.mp h
    rw [List.map_cons, String.join_cons, String.toList_append, List.append_assoc, errorLines_remark hline, if_neg hr, ih hrest,
      List.nil_append]

/-! ### Reports -/

/-- An entry on one line, and no note of it an error. -/
structure Entry.OneLine (e : Entry) : Prop where
  remark : e.remark.OneLine
  notes : ∀ r ∈ e.notes, r.severity ≠ .error ∧ r.OneLine

/-- The lines that tell of an error are those of the errors among the entries, in order. -/
theorem errorLines_render {entries : List Entry} (h : ∀ e ∈ entries, e.OneLine) (source : List Char) :
    errorLines (String.join (entries.map (Entry.render source))).toList =
      (entries.filter Entry.isError).map fun e => (errorHeader e.remark.message).toList := by
  induction entries with
  | nil => rfl
  | cons e rest ih =>
    obtain ⟨⟨hremark, hnotes⟩, hrest⟩ := List.forall_mem_cons.mp h
    rw [List.map_cons, String.join_cons, String.toList_append, Entry.render, Entry.chain, List.map_cons, String.join_cons,
      String.toList_append, List.append_assoc, errorLines_remark hremark, errorLines_notes hnotes, ih hrest,
      List.filter_cons]
    by_cases he : e.remark.severity = .error
    · simp [Entry.isError, he]
    · simp [Entry.isError, he]

/-! ## In JSON -/

namespace Json

def field? (name : String) : Json → Option Json
  | object fields => fields.lookup name
  | _ => none

/-- The offset that a place starts at. -/
def start? : Json → Option Nat
  | array (number start :: _) => some start
  | _ => none

/-- The diagnostic that a log stands for, if its level is that of errors. -/
def diagnostic? (source : List Char) (log : Json) : Option Diagnostic :=
  match log.field? "level", log.field? "message" with
  | some (string level), some (string message) =>
    if level = "Error" then some ⟨((log.field? "span").bind start?).map (lineOf source), message⟩ else none
  | _, _ => none

/-- The diagnostics of the errors that are logged, in order. -/
def loggedErrors (source : List Char) (report : Json) : List Diagnostic :=
  match report.field? "logs" with
  | some (array logs) => logs.filterMap (diagnostic? source)
  | _ => []

theorem start?_toJson (place : Option Span) : (ofOption Span.toJson place).start? = place.map Span.start := by
  cases place <;> rfl

end Json

theorem Severity.title_eq_error {s : Severity} : s.title = "Error" ↔ s = .error := by
  cases s <;> simp [title]

theorem diagnostic?_chainToJson (source : List Char) (e : Entry) :
    (Remark.chainToJson e.chain).diagnostic? source = e.diagnostic? source := by
  have hlevel : (Remark.chainToJson e.chain).field? "level" = some (.string e.remark.severity.title) := by
    simp [Entry.chain, Remark.chainToJson, Json.field?, List.lookup_cons]
  have hmessage : (Remark.chainToJson e.chain).field? "message" = some (.string e.remark.message) := by
    simp [Entry.chain, Remark.chainToJson, Json.field?]
  have hplace : (Remark.chainToJson e.chain).field? "span" = some (.ofOption Span.toJson e.remark.place) := by
    simp [Entry.chain, Remark.chainToJson, Json.field?, List.lookup_cons]
  simp only [Json.diagnostic?, hlevel, hmessage, hplace, Severity.title_eq_error, Option.bind_some, Json.start?_toJson,
    Option.map_map, Entry.diagnostic?, Entry.isError, beq_iff_eq]
  rfl

/-- The errors that are logged give the diagnostics of the report. -/
theorem loggedErrors_toJson (source : String) (r : Report) :
    r.toJson.loggedErrors source.toList = r.diagnostics source := by
  have hlogs : r.toJson.field? "logs" = some (.array (r.entries.toList.map fun e => Remark.chainToJson e.chain)) := by
    simp [Report.toJson, Json.field?, Json.ofList]
  simp only [Json.loggedErrors, hlogs, Report.diagnostics, List.filterMap_map]
  exact congrArg (List.filterMap · _) (funext (diagnostic?_chainToJson source.toList))

end Pushdown
