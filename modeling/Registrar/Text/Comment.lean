import Registrar.Text.Place

/-!
# Comments

A block comment runs from an opening mark to the next closing mark, across lines; one that is never
closed is not a comment. A line comment runs from a double slash to the end of its line. Block
comments are removed first, so a double slash inside one cannot hide its closing mark.
-/

namespace Registrar.Text

/-- A closing mark of a block comment occurs. -/
def hasBlockEnd : Text → Bool
  | '*' :: '/' :: _ => true
  | _ :: r => hasBlockEnd r
  | [] => false

/-- Removes block comments; `inside` tells whether the front of the text is inside one. -/
def dropBlocks (inside : Bool) : Text → Text
  | [] => []
  | '*' :: '/' :: r => if inside then dropBlocks false r else '*' :: dropBlocks false ('/' :: r)
  | '/' :: '*' :: r =>
    if inside then dropBlocks true ('*' :: r)
    else if hasBlockEnd r then dropBlocks true r
    else '/' :: '*' :: r
  | c :: r => if inside then dropBlocks true r else c :: dropBlocks false r

/-- A text without its block comments. A block that is never closed stays. -/
def stripBlockComments (t : Text) : Text :=
  dropBlocks false t

/-- Removes line comments; `inside` tells whether the front of the text is inside one. -/
def dropLines (inside : Bool) : Text → Text
  | [] => []
  | c :: r =>
    if inside then
      if c = '\n' then c :: dropLines false r else dropLines true r
    else if c = '/' ∧ r.head? = some '/' then
      dropLines true r
    else
      c :: dropLines false r

/-- A text without its line comments. The line breaks that end them stay. -/
def stripLineComments (t : Text) : Text :=
  dropLines false t

/-- A text without its block comments and then without its line comments. -/
def stripComments (t : Text) : Text :=
  t.stripBlockComments.stripLineComments

end Registrar.Text

namespace Registrar.Place

/-- Looking back, an opening mark of a block comment comes before any closing mark. Two marks may
share a character; the one that starts later counts. -/
def opensBlock : (before : Text) → Bool
  | '*' :: '/' :: _ => true
  | '/' :: '*' :: _ => false
  | _ :: r => opensBlock r
  | [] => false

/-- The place is inside a comment: after a double slash on its line, or after an opening mark that
is not closed before the place. -/
def inComment (p : Place) : Bool :=
  Text.occursIn "//" (p.before.takeWhile (· ≠ '\n')) || opensBlock p.before

end Registrar.Place
