import Registrar.Text.Bracket

/-!
# Type names

The text of a declared type, and the two views of it that decide how a value is registered: the
name of its outermost template, and that template's arguments.
-/

namespace Registrar.TypeName

/-- The text without the blanks that stand right before `mark`. -/
def attach (mark : Char) : Text → Text
  | [] => []
  | c :: r => if c = ' ' ∧ r.head? = some mark then attach mark r else c :: attach mark r

/-- One blank between words, and none before a `*` or `&`. -/
def normalize (t : Text) : Text :=
  attach '&' (attach '*' (Text.joinWith " " t.words))

/-- What stands before the first angle bracket, if there is one. -/
def beforeAngle? (t : Text) : Option Text :=
  if '<' ∈ t then some (t.takeWhile (· ≠ '<')) else none

/-- The part of a qualified name after its last double colon. -/
def unqualified (t : Text) : Text :=
  match Text.cut? t.reverse "::" with
  | some (last, _) => last.reverse
  | none => t

/-- The name of the outermost template, without words and qualifiers before it: `TArray` of
`const TArray<int32>`, `vector` of `std::vector<int>`. -/
def templateHead? (t : Text) : Option Text :=
  match beforeAngle? t with
  | none => none
  | some before =>
    let word := (before.trimEnd.splitTail (!Text.isBlank ·)).2
    if unqualified word = [] then none else some (unqualified word)

/-- What stands between the first opening and the last closing angle bracket. -/
def insideAngles (t : Text) : Text :=
  ((t.dropWhile (· ≠ '<')).drop 1).reverse.dropWhile (· ≠ '>') |>.drop 1 |>.reverse

/-- The arguments of the outermost template, without empty ones. -/
def templateArgs (t : Text) : List Text :=
  (Text.splitTopLevel (insideAngles t)).filter (· ≠ [])

end Registrar.TypeName
