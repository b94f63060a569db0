/-
  Pushdown.Token — the tokens of a definition and how a report names them.
-/

import Pushdown.Text.Quoted

namespace Pushdown

inductive Token where
  | parOpen
  | parClose
  | bracketOpen
  | bracketClose
  | comma
  | colon
  | arrow
  /-- A comment, without its `#`. -/
  | comment (text : String)
  | word (text : String)
  | lineEnd
  deriving DecidableEq, Repr

namespace Token

/-- The kind of a token, as in "expected ident". -/
def kind : Token → String
  | parOpen => "'('"
  | parClose => "')'"
  | bracketOpen => "'['"
  | bracketClose => "']'"
  | comma => "','"
  | colon => "':'"
  | arrow => "'->'"
  | comment _ => "<comment>"
  | word _ => "ident"
  | lineEnd => "eol"

/-- A token as found, as in "unexpected ...": a word is quoted. -/
def found : Token → String
  | word text => Text.Quoted.ofString text
  | token => token.kind

/-- The punctuation tokens that are one character long. -/
def punctuation? : Char → Option Token
  | '(' => some parOpen
  | ')' => some parClose
  | '[' => some bracketOpen
  | ']' => some bracketClose
  | ',' => some comma
  | ':' => some colon
  | _ => none

end Token

end Pushdown
