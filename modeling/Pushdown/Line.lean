/-
  Pushdown.Line — the lines of a definition that say something: those with a token that
  is no comment. A line is its tokens and how far it is indented, in characters.
-/

import Pushdown.Token.Scan

namespace Pushdown

structure Line where
  indent : Nat
  tokens : List (Located Token)
  tokens_ne_nil : tokens ≠ []
  deriving DecidableEq, Repr

namespace Line

/-- From the first token of the line to the last. -/
def span (l : Line) : Span :=
  (l.tokens.head l.tokens_ne_nil).span.join (l.tokens.getLast l.tokens_ne_nil).span

/-- The place just after the last token. -/
def stop (l : Line) : Span := .point l.span.stop

end Line

namespace Scanned

def isLineEnd (s : Scanned) : Bool := s.lexeme == .token .lineEnd

/-- The token that a lexeme adds to its line, with its column: comments and characters
    that no token may hold add none. -/
def kept? (s : Scanned) : Option (Nat × Located Token) :=
  match s.lexeme with
  | .token (.comment _) => none
  | .token .lineEnd => none
  | .token t => some (s.column, ⟨t, s.span⟩)
  | .invalid _ => none

end Scanned

/-- The lexemes of each line, without the line ends. -/
def splitLines : List Scanned → List (List Scanned)
  | [] => [[]]
  | s :: rest =>
    if s.isLineEnd then [] :: splitLines rest
    else match splitLines rest with
      | [] => [[s]]
      | line :: lines => (s :: line) :: lines

/-- The line that lexemes make up, if they say anything; it is indented as far as its
    first token. -/
def Line.ofScanned? (lexemes : List Scanned) : Option Line :=
  match lexemes.filterMap Scanned.kept? with
  | [] => none
  | first :: rest => some ⟨first.1, first.2 :: rest.map Prod.snd, List.cons_ne_nil _ _⟩

/-- The lines of a scan that say something, in order. -/
def linesOf (lexemes : List Scanned) : List Line := (splitLines lexemes).filterMap Line.ofScanned?

end Pushdown
