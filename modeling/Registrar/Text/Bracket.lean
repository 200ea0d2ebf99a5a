import Registrar.Text.Basic

/-!
# Brackets

Two ways of reading brackets. `closing?` follows one pair of delimiters to the closer that matches
an opener already passed. `splitTopLevel` counts all four pairs together, without asking that they
match, and cuts at the commas at depth zero.
-/

namespace Registrar.Text

/-- With `depth + 1` openers pending, the text before the closer that matches the first of them, and
the text after it. A character that is both opener and closer counts as an opener. -/
def closing? (opener closer : Char) : (depth : Nat) → Text → Option (Text × Text)
  | _, [] => none
  | depth, c :: r =>
    if c = opener then
      (closing? opener closer (depth + 1) r).map fun (inner, rest) => (c :: inner, rest)
    else if c = closer then
      match depth with
      | 0 => some ([], r)
      | depth + 1 => (closing? opener closer depth r).map fun (inner, rest) => (c :: inner, rest)
    else
      (closing? opener closer depth r).map fun (inner, rest) => (c :: inner, rest)

/-- Just after an opener: the text up to the matching closer, and the text after it. -/
def balanced? (opener closer : Char) (t : Text) : Option (Text × Text) :=
  closing? opener closer 0 t

/-- From the byte `start` on, which stands just after an opener: the text up to the matching closer,
and the byte just after that closer. -/
def enclosedAt? (opener closer : Char) (start : Nat) (t : Text) : Option (Text × Nat) :=
  ((t.dropBytes start).balanced? opener closer).map fun (inner, rest) =>
    (inner, t.byteLength - rest.byteLength)

/-- Just after an opening parenthesis: the text it encloses, and the text after it. -/
def parenthesised? (t : Text) : Option (Text × Text) :=
  t.balanced? '(' ')'

/-- The change of depth that a character makes: up at an opener, down at a closer. -/
def depthStep (c : Char) : Int :=
  if c = '<' ∨ c = '(' ∨ c = '[' ∨ c = '{' then 1
  else if c = '>' ∨ c = ')' ∨ c = ']' ∨ c = '}' then -1
  else 0

/-- The pieces between the commas at depth zero, where the text starts at `depth`. -/
def splitCommas (depth : Int) : Text → List Text
  | [] => [[]]
  | c :: r =>
    if c = ',' ∧ depth = 0 then
      [] :: splitCommas depth r
    else
      match splitCommas (depth + depthStep c) r with
      | [] => [[c]]
      | piece :: pieces => (c :: piece) :: pieces

/-- The pieces between the commas outside all brackets, each trimmed. Empty pieces stay. -/
def splitTopLevel (t : Text) : List Text :=
  (splitCommas 0 t).map trim

/-- What stands before the first `mark` outside all brackets, where the text starts at `depth`; the
whole text when there is none. -/
def beforeTopLevel (mark : Char) (depth : Int) : Text → Text
  | [] => []
  | c :: r =>
    if c = mark ∧ depth = 0 then [] else c :: beforeTopLevel mark (depth + depthStep c) r

end Registrar.Text
