import Registrar.Text.Bracket
import Registrar.Text.Comment

/-!
# Markers

A marker is a word that a header writes like a call, right before the declaration it marks. A site
of a marker is a place where the marker stands as a word, followed by an opening parenthesis, and
outside comments. Its arguments run to the matching closing parenthesis; a list that never closes
is an error, reported with the byte offset of the site.
-/

namespace Registrar

/-- The words that mark reflected declarations. -/
inductive Marker
  | class_
  | struct_
  | property
  | function
  | enum
deriving DecidableEq, Repr

namespace Marker

/-- The marker as it is written in a header. -/
def word : Marker → Text
  | class_ => "UCLASS"
  | struct_ => "USTRUCT"
  | property => "UPROPERTY"
  | function => "UFUNCTION"
  | enum => "UENUM"

end Marker

/-- The word that asks for the generated body of a class. -/
def bodyWord : Text := "GENERATED_REFLECTION_BODY"

/-- Why a header cannot be read. -/
inductive HeaderError
  /-- A delimiter that belongs to a marker never closes. -/
  | unbalanced (marker : Marker) (offset : Nat)
  /-- The two halves of a range are not finite numbers. -/
  | invalidRange (property value : Text)
deriving DecidableEq, Repr

namespace HeaderError

/-- The text that a user sees. -/
def message : HeaderError → Text
  | unbalanced marker offset =>
    "unbalanced parentheses after " ++ marker.word ++ " at byte " ++ Text.ofNat offset
  | invalidRange property value =>
    "property " ++ property ++ ": invalid Range value \"" ++ value ++ "\""

end HeaderError

/-- A live marker: the place where it starts, and the text after its opening parenthesis. -/
structure Site where
  place : Place
  rest : Text
deriving DecidableEq, Repr

/-- A word and an opening parenthesis at the front; the text after them. -/
def takeCall? (word t : Text) : Option Text := do
  let rest ← t.after? word
  rest.trimStart.takeChar? '('

namespace Marker

/-- The marker starts at a place, as a word and outside comments. -/
def siteAt? (m : Marker) (p : Place) : Option Site :=
  match takeCall? m.word p.after with
  | some rest => if p.atWordStart && !p.inComment then some ⟨p, rest⟩ else none
  | none => none

/-- The sites of a marker, from left to right. -/
def sites (m : Marker) (t : Text) : List Site :=
  t.places.filterMap m.siteAt?

/-- The arguments at a site of the marker, and the text after them. -/
def arguments (m : Marker) (site : Site) : Except HeaderError (Text × Text) :=
  match site.rest.parenthesised? with
  | some found => .ok found
  | none => .error (.unbalanced m site.place.offset)

end Marker

/-- The text asks for a generated body somewhere. -/
def asksForBody (t : Text) : Bool :=
  t.places.any fun p =>
    match takeCall? bodyWord p.after with
    | some rest => p.atWordStart && (rest.trimStart.takeChar? ')').isSome
    | none => false

end Registrar
