/-
  Pushdown.Text.Quoted — text shown between quotes, on one line.

  A backslash and the quote in use are escaped, and so is every character that would
  not show as itself: NUL, tab, carriage return and line feed by a letter, the others
  by their code point in hexadecimal.
-/

import Pushdown.Text.GraphemeExtend
import Pushdown.Text.Unprintable

namespace Pushdown.Text.Quoted

/-- The halfwidth katakana sound marks: they belong to the character before them, and yet
each of them is drawn in a column of its own. -/
def isHalfwidthMark (c : Char) : Bool :=
  c = '\uff9e' || c = '\uff9f'

/-- Whether a character is drawn by itself and apart from its neighbours. -/
def shows (c : Char) : Bool :=
  (0x20 ≤ c.toNat && c.toNat < 0x7f) || isHalfwidthMark c ||
    !(isGraphemeExtend c || isUnprintable c)

/-- A code point in lower case hexadecimal, without leading zeros. -/
def codePoint (c : Char) : List Char :=
  ['\\', 'u', '\x7b'] ++ Nat.toDigits 16 c.toNat ++ ['\x7d']

/-- The form of one character between two `quote`s. -/
def escape (quote : Char) (c : Char) : List Char :=
  if c = '\x00' then ['\\', '0']
  else if c = '\t' then ['\\', 't']
  else if c = '\r' then ['\\', 'r']
  else if c = '\n' then ['\\', 'n']
  else if c = '\\' || c = quote then ['\\', c]
  else if shows c then [c]
  else codePoint c

/-- A text between double quotes. -/
def ofString (text : String) : String :=
  String.ofList (['"'] ++ text.toList.flatMap (escape '"') ++ ['"'])

/-- A character between single quotes. -/
def ofChar (c : Char) : String :=
  String.ofList (['\x27'] ++ escape '\x27' c ++ ['\x27'])

end Pushdown.Text.Quoted
