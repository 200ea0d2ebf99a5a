import Registrar.Text.CharRange

/-!
# Character classes

Three classes of characters decide how a header is read:

* `isBlank`: the characters that separate words (the property White_Space);
* `isWord`: the characters of identifiers: alphabetic characters, marks, decimal digits, connector
  punctuation and the two join controls;
* `isAlphanumeric`: alphabetic characters and numbers of every sort.

Identifiers follow the sixteenth edition of the Unicode standard and alphanumeric characters the
seventeenth, so a letter that came with the seventeenth is alphanumeric and yet no word character.

Each test settles ASCII first, so that facts about ASCII text never meet the tables.
-/

namespace Registrar.Text

open CharRange

/-- White space, of which ASCII has six characters: the blank and the controls 9 to 13. -/
def isBlank (c : Char) : Bool :=
  let n := c.toNat
  if n < 0x80 then
    n == 0x20 || (0x09 ≤ n && n ≤ 0x0D)
  else
    covers [(0x85, 0x85), (0xA0, 0xA0), (0x1680, 0x1680), (0x2000, 0x200A), (0x2028, 0x2029),
      (0x202F, 0x202F), (0x205F, 0x205F), (0x3000, 0x3000)] n

/-- The five characters that ASCII layout counts as white space: the vertical tab is not one. -/
def isAsciiBlank (c : Char) : Bool :=
  c == ' ' || c == '\t' || c == '\n' || c == '\x0c' || c == '\r'

/-- ASCII letters and digits. -/
def isAsciiAlphanumeric (c : Char) : Bool :=
  c.isAlphanum

/-- The characters that identifiers are made of. Those of the last edition are not among them. -/
def isWord (c : Char) : Bool :=
  let n := c.toNat
  if n < 0x80 then
    isAsciiAlphanumeric c || c == '_'
  else
    (covers alphabetic n || covers plainMark n || covers decimalDigit n || covers connector n ||
      covers joinControl n) && !covers editionSeventeen n

/-- Alphabetic characters and numbers, without marks and punctuation. -/
def isAlphanumeric (c : Char) : Bool :=
  let n := c.toNat
  if n < 0x80 then
    isAsciiAlphanumeric c
  else
    covers alphabetic n || covers decimalDigit n || covers otherNumber n

end Registrar.Text
