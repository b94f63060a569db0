/-
  Pushdown.Text.Blank — the characters that separate words: white space (the Unicode
  property White_Space) and control characters (general category Cc).
-/

namespace Pushdown.Text

/-- White space: the ASCII blanks, next line, the no-break and typographic spaces,
    the line and paragraph separators. -/
def isBlank (c : Char) : Bool :=
  let n := c.toNat
  (0x09 ≤ n && n ≤ 0x0d) || n == 0x20 || n == 0x85 || n == 0xa0 || n == 0x1680 ||
    (0x2000 ≤ n && n ≤ 0x200a) || n == 0x2028 || n == 0x2029 || n == 0x202f || n == 0x205f ||
    n == 0x3000

/-- The C0 controls, delete and the C1 controls. Some of them are blanks as well. -/
def isControl (c : Char) : Bool := c.toNat < 0x20 || (0x7f ≤ c.toNat && c.toNat < 0xa0)

end Pushdown.Text
