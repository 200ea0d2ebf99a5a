import Registrar.Text.Bracket

/-!
# Enumerations

The items of an enumeration and their values. An item without a readable value takes the value of
the item before it plus one, in 64-bit arithmetic that wraps; the first such item takes zero.
-/

namespace Registrar

/-- An enumeration that a header declares. -/
structure Enumeration where
  name : Text
  underlyingType : Text
  /-- The items in the order they are declared. -/
  values : List (Text × Int64)
  displayName : Text
  description : Text
deriving DecidableEq, Repr

namespace Enumeration

/-- A literal of an item: its sign, and the word after the sign. -/
structure Literal where
  negative : Bool
  word : Text
deriving DecidableEq, Repr

namespace Literal

/-- The word without the suffixes that give the width of a number. -/
def unsuffixed (l : Literal) : Text :=
  (l.word.splitTail (· ∈ ['u', 'U', 'l', 'L'])).1

/-- The magnitude: hexadecimal after `0x` or `0X`, otherwise decimal. -/
def magnitude? (l : Literal) : Option Nat :=
  match l.unsuffixed with
  | '0' :: 'x' :: hex => Text.digitsValue? 16 hex
  | '0' :: 'X' :: hex => Text.digitsValue? 16 hex
  | decimal => Text.digitsValue? 10 decimal

/-- The value, if the word is a number of magnitude below 2^63. -/
def value? (l : Literal) : Option Int64 :=
  match l.magnitude? with
  | some n =>
    if n < Nat.pow 2 63 then some (if l.negative then Int64.ofInt (-n) else Int64.ofInt n) else none
  | none => none

end Literal

/-- An equals sign and a literal at the front. -/
def takeLiteral? (t : Text) : Option Literal := do
  let rest ← t.trimStart.takeChar? '='
  let rest := rest.trimStart
  match rest.takeChar? '-' with
  | some rest => return ⟨true, (← rest.trimStart.takeWord?).1⟩
  | none => return ⟨false, (← rest.takeWord?).1⟩

/-- The name at the front of an item, and the literal assigned to it. What follows is ignored. -/
def takeItem? (t : Text) : Option (Text × Option Literal) := do
  let (name, rest) ← t.takeWord?
  return (name, takeLiteral? rest)

/-- Gives each item its value; `next` is the value of an item without one of its own. -/
def number (next : Int64) : List (Text × Option Literal) → List (Text × Int64)
  | [] => []
  | (name, literal) :: items =>
    let value := (literal.bind Literal.value?).getD next
    (name, value) :: number (value + 1) items

/-- The items of an enumeration's body, with their values. -/
def itemValues (body : Text) : List (Text × Int64) :=
  number 0 (body.splitTopLevel.filterMap takeItem?)

/-- The value of the first item with a name. -/
def valueOf? (e : Enumeration) (item : Text) : Option Int64 :=
  (e.values.find? fun v => v.1 = item).map Prod.snd

end Enumeration

end Registrar
