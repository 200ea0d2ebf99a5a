import Registrar.Attributes
import Registrar.Enumeration
import Registrar.Marker
import Registrar.TypeName

/-!
# Declarations

The declaration that follows a marker, as it is written: the head of a class or structure, a
property, a function or an enumeration. Each reader takes the text after the marker's arguments and
says what it declares, or that it declares nothing the marker is for.
-/

namespace Registrar

/-- The sorts of entity that a header can contribute. -/
inductive EntityKind
  | class_
  | struct_
  /-- Enumerations only, without a class. -/
  | enumOnly
deriving DecidableEq, Repr

/-- The head of a class or structure. -/
structure ClassHead where
  kind : EntityKind
  name : Text
  /-- Empty for a structure. -/
  parent : Text
  /-- The arguments of the marker. -/
  arguments : Text
deriving DecidableEq, Repr

/-- A property as declared. -/
structure PropertyDeclaration where
  arguments : Text
  type : Text
  name : Text
deriving DecidableEq, Repr

/-- A function as declared. -/
structure FunctionDeclaration where
  arguments : Text
  returnType : Text
  name : Text
  parameters : Text
  isConst : Bool
deriving DecidableEq, Repr

namespace ClassHead

/-- A word that ends in `_API` and is more than that, and white space after it; the rest. -/
def skipExport? (t : Text) : Option Text := do
  let (word, rest) ← t.takeWord?
  if "_API".toList.isSuffixOf word && word.length > 4 then rest.skipBlanks1? else none

/-- What `read` finds past an export word, or else at the front. -/
def pastExport? {α : Type} (read : Text → Option α) (t : Text) : Option α :=
  match (skipExport? t).bind read with
  | some a => some a
  | none => read t

/-- The text past `final` and the white space after it, if the word is there. -/
def skipFinal (t : Text) : Text :=
  match t.after? "final" with
  | some rest => rest.trimStart
  | none => t

/-- The name of a class and of its public parent. -/
def nameAndParent? (t : Text) : Option (Text × Text) := do
  let (name, rest) ← t.takeWord?
  let rest ← (skipFinal rest.trimStart).takeChar? ':'
  let rest ← (← rest.trimStart.after? "public").skipBlanks1?
  let (parent, _) ← rest.takeWord?
  return (name, parent)

/-- A class with a public parent at the front: their names. -/
def readClass? (t : Text) : Option (Text × Text) := do
  let rest ← (← t.after? "class").skipBlanks1?
  pastExport? nameAndParent? rest

/-- A structure at the front: its name. -/
def readStruct? (t : Text) : Option Text := do
  let rest ← (← t.after? "struct").skipBlanks1?
  pastExport? (fun t => t.takeWord?.map Prod.fst) rest

/-- The first thing that `read` finds at the start of a word. -/
def findWord? {α : Type} (read : Text → Option α) (t : Text) : Option α :=
  t.places.findSome? fun p => if p.atWordStart then read p.after else none

end ClassHead

namespace PropertyDeclaration

/-- How many characters past the marker a declaration may reach. -/
def window : Nat := 200

/-- The characters of a type and a name. -/
def isTypeChar (c : Char) : Bool :=
  Text.isWord c || Text.isBlank c || c ∈ ['<', '>', '*', '&', ':', ',']

/-- What may follow the name: the end of the declaration, an initial value, or an initialiser in
braces. -/
def terminates : Text → Bool
  | ';' :: _ => true
  | '=' :: _ => true
  | '{' :: r => '}' ∈ r
  | _ => false

/-- A type and a name at the front. The name is the last word before the terminator, and what
stands before it, which may not be nothing, is the type. -/
def read? (t : Text) : Option (Text × Text) :=
  let (type, name) := Text.splitTail Text.isWord (Text.trimEnd (t.takeWhile isTypeChar))
  if type ≠ [] ∧ name ≠ [] ∧ terminates (t.dropWhile isTypeChar) then
    some (TypeName.normalize type, name)
  else
    none

end PropertyDeclaration

namespace FunctionDeclaration

/-- The words before a return type that are not part of it. -/
def specifiers : List Text :=
  ["virtual", "static", "inline", "FORCEINLINE", "explicit"]

/-- The words that may follow a parameter list. -/
def qualifiers : List Text :=
  ["override", "final", "noexcept"]

/-- The type that is left when the specifiers in front are dropped. -/
def stripSpecifiers (t : Text) : Text :=
  TypeName.normalize (Text.joinWith " " (t.words.dropWhile specifiers.contains))

/-- What stands before a function's opening parenthesis: the text up to its name, the name, and the
text after the parenthesis. -/
def takeHead? (t : Text) : Option (Text × Text × Text) := do
  let inHead (c : Char) : Bool := c ∉ [';', '{', '}', '(', ')']
  let rest ← Text.takeChar? '(' (t.dropWhile inHead)
  let (before, name) := Text.splitTail Text.isWord (Text.trimEnd (t.takeWhile inHead))
  if name = [] then none else some (before, name, rest)

/-- The text past the qualifiers at the front. -/
def skipQualifiers (t : Text) : Text :=
  match _h : t.takeWord? with
  | some (word, rest) => if word ∈ qualifiers then skipQualifiers rest.trimStart else t
  | none => t
termination_by t.length
decreasing_by
  exact Nat.lt_of_le_of_lt (Text.length_dropWhile_le _ _) (Text.length_lt_of_takeWord? _h)

/-- What may follow the qualifiers: the end of the declaration, a body, or the mark of a pure
function. -/
def terminates : Text → Bool
  | ';' :: _ => true
  | '{' :: _ => true
  | '=' :: r =>
    match (Text.trimStart r).takeChar? '0' with
    | some r => (r.trimStart.takeChar? ';').isSome
    | none => false
  | _ => false

/-- The text after a parameter list: is the function constant? Nothing, when the text ends no
declaration. -/
def readTail? (t : Text) : Option Bool :=
  let (isConst, rest) :=
    match t.trimStart.takeKeyword? "const" with
    | some rest => (true, rest.trimStart)
    | none => (false, t.trimStart)
  if terminates (skipQualifiers rest) then some isConst else none

end FunctionDeclaration

namespace Enumeration

/-- The underlying type of an enumeration that names none. -/
def defaultUnderlying : Text := "uint8"

/-- The underlying type after a name, if one is named, and the text after it. -/
def takeUnderlying (t : Text) : Option (Text × Text) :=
  match t.takeChar? ':' with
  | some rest => rest.trimStart.takeWord?
  | none => some (defaultUnderlying, t)

/-- An enumeration's name, its underlying type, and the text after the opening brace. -/
def takeHead? (t : Text) : Option (Text × Text × Text) := do
  let rest ← (← t.trimStart.after? "enum").skipBlanks1?
  let rest ← (← rest.after? "class").skipBlanks1?
  let (name, rest) ← rest.takeWord?
  let (underlying, rest) ← takeUnderlying rest.trimStart
  let rest ← rest.trimStart.takeChar? '{'
  return (name, underlying, rest)

end Enumeration

end Registrar
