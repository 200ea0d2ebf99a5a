import Registrar.Number.Decimal

/-!
# Literals in generated code

How texts and numbers are written in generated code. In a string literal the backslash, the double
quote and the line break are escaped, and nothing else is.
-/

namespace Registrar.Artifact

/-- The escaped form of a character. -/
def escapeChar (c : Char) : Text :=
  if c = '\\' then ['\\', '\\']
  else if c = '"' then ['\\', '"']
  else if c = '\n' then ['\\', 'n']
  else [c]

/-- The body of a string literal for a text. -/
def escape (t : Text) : Text :=
  t.flatMap escapeChar

/-- A text in double quotes. -/
def quote (t : Text) : Text :=
  '"' :: escape t ++ ['"']

/-- Numbers in code are written out from 0.0001 up to, not including, 10^16; a midpoint goes up, and
a power of ten has no plus sign. -/
def numberLayout : DecimalLayout where
  tie := .up
  plainFrom := -3
  plainTo := 16
  plusSign := false

/-- A number as code writes it. -/
def number : Single → Text
  | .finite negative mantissa exponent => numberLayout.write negative mantissa exponent
  | .infinite negative => if negative then "-inf" else "inf"
  | .nan => "NaN"

end Registrar.Artifact
