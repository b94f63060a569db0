/-
  Pushdown.Token.Scan — a definition as its tokens.

  White space separates tokens and a line end is a token of its own. A word is any run of
  other characters, so digits and signs can name states and letters; it ends before a
  blank, a control character, punctuation or an arrow. A `#` opens a comment only where
  nothing but blanks stands before it on its line. A control character that is no blank
  belongs to no token.

  Every lexeme knows the bytes it covers and the characters before it on its line.
-/

import Pushdown.Text.Blank
import Pushdown.Text.Offset
import Pushdown.Token

namespace Pushdown

open Text

/-- What stands at one place of a text. -/
inductive Lexeme where
  | token (t : Token)
  /-- A character that no token may hold. -/
  | invalid (c : Char)
  deriving DecidableEq, Repr

/-- A lexeme, its place and the number of characters before it on its line. -/
structure Scanned where
  lexeme : Lexeme
  span : Span
  column : Nat
  deriving DecidableEq, Repr

/-- Where a scan stands. -/
structure Cursor where
  offset : Nat
  column : Nat
  /-- Whether only blanks were seen on this line. -/
  lineStart : Bool
  deriving DecidableEq, Repr

namespace Cursor

def origin : Cursor := ⟨0, 0, true⟩

/-- Past a blank, which leaves the start of a line what it is. -/
def skip (p : Cursor) (c : Char) : Cursor :=
  { p with offset := p.offset + c.utf8Size, column := p.column + 1 }

/-- Past the text of a lexeme. -/
def pass (p : Cursor) (text : List Char) : Cursor :=
  ⟨p.offset + byteLength text, p.column + text.length, false⟩

/-- Past a line end. -/
def newLine (p : Cursor) : Cursor := ⟨p.offset + 1, 0, true⟩

/-- The lexeme that covers `text` from here. -/
def scanned (p : Cursor) (text : List Char) (lexeme : Lexeme) : Scanned :=
  ⟨lexeme, ⟨p.offset, p.offset + byteLength text⟩, p.column⟩

end Cursor

/-- Whether a word that stands before this text ends here. -/
def endsWord : List Char → Bool
  | [] => true
  | c :: rest =>
    isBlank c || isControl c || (Token.punctuation? c).isSome || (c == '-' && rest.head? == some '>')

/-- The rest of a word whose first characters are read, and the text after it. -/
def splitWord : List Char → List Char × List Char
  | [] => ([], [])
  | c :: rest =>
    if endsWord (c :: rest) then ([], c :: rest)
    else
      let word := splitWord rest
      (c :: word.1, word.2)

theorem splitWord_append (text : List Char) : (splitWord text).1 ++ (splitWord text).2 = text := by
  induction text with
  | nil => rfl
  | cons c rest ih =>
    unfold splitWord
    split
    · rfl
    · rw [List.cons_append, ih]

theorem splitWord_length_le (text : List Char) : (splitWord text).2.length ≤ text.length := by
  have h := congrArg List.length (splitWord_append text)
  rw [List.length_append] at h
  omega

/-- The rest of a line before its end, and the text from its end on. -/
def splitLine (text : List Char) : List Char × List Char :=
  (text.takeWhile (· != '\n'), text.dropWhile (· != '\n'))

theorem splitLine_append (text : List Char) : (splitLine text).1 ++ (splitLine text).2 = text :=
  List.takeWhile_append_dropWhile

theorem splitLine_length_le (text : List Char) : (splitLine text).2.length ≤ text.length :=
  (List.dropWhile_sublist _).length_le

/-- The first lexeme of a text that does not begin with a blank: what it is, the
    characters it covers and the text after it. -/
def firstLexeme (lineStart : Bool) (c : Char) (rest : List Char) : Lexeme × List Char × List Char :=
  match Token.punctuation? c with
  | some t => (.token t, [c], rest)
  | none =>
    if c = '-' ∧ rest.head? = some '>' then (.token .arrow, [c, '>'], rest.tail)
    else if c = '#' ∧ lineStart = true then
      let line := splitLine rest
      (.token (.comment (String.ofList line.1)), c :: line.1, line.2)
    else if isControl c then (.invalid c, [c], rest)
    else
      let word := splitWord rest
      (.token (.word (String.ofList (c :: word.1))), c :: word.1, word.2)

theorem firstLexeme_length_le (lineStart : Bool) (c : Char) (rest : List Char) :
    (firstLexeme lineStart c rest).2.2.length ≤ rest.length := by
  have hw := splitWord_length_le rest
  have hl := splitLine_length_le rest
  unfold firstLexeme
  split
  · exact Nat.le_refl _
  · split
    · simp
    · split
      · exact hl
      · split
        · exact Nat.le_refl _
        · exact hw

/-- The lexemes of a text, read from a place in it. -/
def scanFrom (p : Cursor) (text : List Char) : List Scanned :=
  match text with
  | [] => []
  | c :: rest =>
    if c = '\n' then p.scanned [c] (.token .lineEnd) :: scanFrom p.newLine rest
    else if isBlank c then scanFrom (p.skip c) rest
    else
      let first := firstLexeme p.lineStart c rest
      p.scanned first.2.1 first.1 :: scanFrom (p.pass first.2.1) first.2.2
termination_by text.length
decreasing_by
  · simp
  · simp
  · exact Nat.lt_succ_of_le (firstLexeme_length_le p.lineStart c rest)

/-- The lexemes of a whole text. -/
def scan (text : String) : List Scanned := scanFrom .origin text.toList

/-- The characters of a scan that belong to no token, with their places. -/
def invalidChars (lexemes : List Scanned) : List (Located Char) :=
  lexemes.filterMap fun s => match s.lexeme with
    | .invalid c => some ⟨c, s.span⟩
    | .token _ => none

end Pushdown
