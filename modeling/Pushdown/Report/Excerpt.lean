/-
  Pushdown.Report.Excerpt — a report for a terminal: each remark in colour, then the
  lines of the definition its place touches, with a `~` under every character of it.
-/

import Pushdown.Report
import Pushdown.Text.Lines

namespace Pushdown

open Text

/-! ## The lines of a text that a place touches -/

namespace Span

/-- The offset of the line that a place begins on. -/
def firstLineStart (s : Span) (source : List Char) : Nat :=
  match takeBytes? s.start source with
  | some before =>
    byteLength before - byteLength (before.reverse.takeWhile (· != '\n'))
  | none => 0

/-- The offset of the end of the line that a place ends on. -/
def lastLineStop (s : Span) (source : List Char) : Nat :=
  match dropBytes? s.stop source with
  | some after => s.stop + byteLength (after.takeWhile (· != '\n'))
  | none => byteLength source

/-- The whole lines that a place touches. -/
def touchedText (s : Span) (source : List Char) : List Char :=
  (slice? ⟨s.firstLineStart source, s.lastLineStop source⟩ source).getD []

/-- The mark under each character of a line that begins at `offset`: a tilde inside the
    place; a tab under a tab, so that the columns stay under each other; else a space. -/
def marks (s : Span) (offset : Nat) : List Char → List Char
  | [] => []
  | c :: rest =>
    (if s.covers offset then '~' else if c = '\t' then '\t' else ' ') ::
      s.marks (offset + c.utf8Size) rest

end Span

/-- A line of an excerpt: its number, its text and the marks under it. -/
structure ExcerptLine where
  number : Nat
  text : List Char
  marks : List Char
  deriving DecidableEq, Repr

/-- Numbers and marks lines that follow each other from an offset on. -/
def excerptFrom (s : Span) (number offset : Nat) : List (List Char) → List ExcerptLine
  | [] => []
  | line :: rest =>
    ⟨number, trimLineEnd line, s.marks offset (trimLineEnd line)⟩ ::
      excerptFrom s (number + 1) (offset + byteLength line) rest

/-- The excerpt of a text around a place. -/
def excerpt (source : List Char) (s : Span) : List ExcerptLine :=
  excerptFrom s (lineOf source s.start) (s.firstLineStart source)
    (terminatedLines (s.touchedText source))

/-! ## Colours -/

namespace Ansi

def reset : String := "\x1b[0;22m"
def bold : String := "\x1b[1m"
def red : String := "\x1b[31m"
def green : String := "\x1b[32m"
def yellow : String := "\x1b[33m"
def cyan : String := "\x1b[36m"

end Ansi

namespace Severity

def label : Severity → String
  | help => "help"
  | info => "info"
  | warning => "warning"
  | error => "error"

def colour : Severity → String
  | help => Ansi.green
  | info => Ansi.cyan
  | warning => Ansi.yellow
  | error => Ansi.red

end Severity

/-- A run of spaces. -/
def blanks (n : Nat) : String := String.ofList (List.replicate n ' ')

/-- A number right aligned in `width` columns; a longer one takes the room it needs. -/
def alignRight (width n : Nat) : String := blanks (width - (Nat.repr n).length) ++ Nat.repr n

/-- A line of the excerpt and, below it, its marks; `width` columns hold the number. -/
def ExcerptLine.render (width : Nat) (line : ExcerptLine) : String :=
  Ansi.bold ++ Ansi.cyan ++ alignRight width line.number ++ " | " ++ Ansi.reset ++
    String.ofList line.text ++ "\n" ++
  Ansi.bold ++ Ansi.cyan ++ blanks (width + 3) ++ String.ofList line.marks ++ Ansi.reset ++ "\n"

namespace Remark

def header (r : Remark) : String :=
  Ansi.bold ++ r.severity.colour ++ r.severity.label ++ Ansi.reset ++ Ansi.bold ++ ": " ++
    r.message ++ Ansi.reset ++ "\n"

/-- The numbers of an excerpt are as wide as that of the line its place ends on. -/
def numberWidth (source : List Char) (s : Span) : Nat := (Nat.repr (lineOf source s.stop)).length

def render (source : List Char) (r : Remark) : String :=
  match r.place with
  | none => r.header
  | some s =>
    r.header ++ String.join ((excerpt source s).map (ExcerptLine.render (numberWidth source s)))

end Remark

/-- A remark and its notes. -/
def Entry.render (source : List Char) (e : Entry) : String :=
  String.join (e.chain.map (Remark.render source))

/-- The entries of a report, each as its own text. -/
def Report.render (source : String) (r : Report) : List String :=
  r.entries.toList.map (Entry.render source.toList)

end Pushdown
