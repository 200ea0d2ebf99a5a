import Registrar.Text.Basic

/-!
# Searching a text

A *reading* takes something from the front of a text and gives the rest. This module looks for the
places where a reading succeeds, from left to right and without overlap: where one succeeds, the
search goes on behind it.
-/

namespace Registrar.Text

/-- Everything that `read` finds in a text, from left to right and without overlap. A reading that
would not get ahead ends the search. -/
def findAll {α : Type} (read : Text → Option (α × Text)) (t : Text) : List α :=
  match t with
  | [] => []
  | c :: r =>
    match read (c :: r) with
    | none => findAll read r
    | some (a, rest) =>
      if rest.length < (c :: r).length then a :: findAll read rest else [a]
termination_by t.length
decreasing_by
  · exact Nat.lt_succ_self r.length
  · assumption

/-- Readings in a row, as long as they succeed and get ahead; the rest. -/
def many {α : Type} (read : Text → Option (α × Text)) (t : Text) : List α × Text :=
  match read t with
  | none => ([], t)
  | some (a, rest) =>
    if rest.length < t.length then
      let (as, last) := many read rest
      (a :: as, last)
    else
      ([], t)
termination_by t.length

/-- Something found in a text: what stands before it, the text it was read from, what it is, and
what follows. -/
structure Occurrence (α : Type) where
  before : Text
  source : Text
  value : α
  rest : Text

/-- The same occurrence in a text with something more in front. -/
def Occurrence.shift {α : Type} (front : Text) (o : Occurrence α) : Occurrence α :=
  { o with before := front ++ o.before }

/-- The first of the things that `read` finds in a text, from left to right and without overlap,
that satisfies `want`. -/
def findFirst? {α : Type} (read : Text → Option (α × Text)) (want : α → Bool) (t : Text) :
    Option (Occurrence α) :=
  match t with
  | [] => none
  | c :: r =>
    match read (c :: r) with
    | none => (findFirst? read want r).map (·.shift [c])
    | some (a, rest) =>
      let source := (c :: r).take ((c :: r).length - rest.length)
      if want a then some ⟨[], source, a, rest⟩
      else if rest.length < (c :: r).length then
        (findFirst? read want rest).map (·.shift source)
      else none
termination_by t.length
decreasing_by
  · exact Nat.lt_succ_self r.length
  · assumption

/-- What stands before and after the last occurrence of `needle`. -/
def cutLast? (t needle : Text) : Option (Text × Text) :=
  (cut? t.reverse needle.reverse).map fun (after, before) => (before.reverse, after.reverse)

/-- The text with `lines` put in front of its last line, or at its end when it has one line. -/
def insertBeforeLastLine (t lines : Text) : Text :=
  match t.splitTail (· ≠ '\n') with
  | ([], _) => t ++ lines
  | (before, last) => before ++ lines ++ last

end Registrar.Text
