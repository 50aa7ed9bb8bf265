/-
# Blank characters

Two classes of blank characters.  Words, cells and titles end at any blank character of Unicode;
the braces of rows and items are set off by the blank characters of ASCII only.
-/
import MemoryDoc.Text.Basic

namespace MemoryDoc.Text

/-- The characters with the property `White_Space`. -/
def isBlank (c : Char) : Bool :=
  ('\t' ≤ c && c ≤ '\r') || c == ' ' || c == '\u0085' || c == '\u00a0' || c == '\u1680'
    || ('\u2000' ≤ c && c ≤ '\u200a') || c == '\u2028' || c == '\u2029' || c == '\u202f'
    || c == '\u205f' || c == '\u3000'

/-- The blank characters of ASCII: the space, the tabulator and three line ends. -/
def isAsciiBlank (c : Char) : Bool :=
  c == ' ' || c == '\t' || c == '\n' || c == '\x0c' || c == '\r'

end MemoryDoc.Text
