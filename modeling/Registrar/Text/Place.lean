import Registrar.Text.Basic

/-!
# Places in a text

A place is a gap between two characters. It keeps what stands before it, nearest character first,
and what follows, so a search that needs to look back (is this the start of a word? is this inside
a comment?) is a filter over `places`.
-/

namespace Registrar

/-- A gap between two characters of a text: what stands before it, nearest character first, and
what follows it. -/
structure Place where
  before : Text
  after : Text
deriving DecidableEq, Repr

namespace Place

/-- The bytes before the place. -/
def offset (p : Place) : Nat :=
  p.before.byteLength

/-- The character before the place does not belong to a word. -/
def atWordStart (p : Place) : Bool :=
  p.before.endsWord

/-- The place of `text` that has `n` bytes before it. -/
def atOffset (n : Nat) (text : Text) : Place :=
  ⟨(text.takeBytes n).reverse, text.dropBytes n⟩

end Place

namespace Text

/-- The places from the front of `t` on, where `before` is what precedes it. -/
def placesFrom (before : Text) : (t : Text) → List Place
  | [] => [⟨before, []⟩]
  | c :: r => ⟨before, c :: r⟩ :: placesFrom (c :: before) r

/-- All places of a text, from left to right. -/
def places (t : Text) : List Place :=
  placesFrom [] t

end Text

end Registrar
