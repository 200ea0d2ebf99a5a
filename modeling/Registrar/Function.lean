import Registrar.Header

/-!
# Functions

A function is a reflected member function, with its parameter list taken apart into names and types.
-/

namespace Registrar

/-- A parameter of a function. -/
structure Parameter where
  /-- Empty for a parameter without a name. -/
  name : Text
  type : Text
deriving DecidableEq, Repr

/-- A reflected member function. -/
structure Function where
  name : Text
  displayName : Text
  returnType : Text
  parameters : List Parameter
  isConst : Bool
  /-- Scripts can call the function. -/
  isScriptable : Bool
deriving DecidableEq, Repr

namespace Parameter

/-- The characters of a parameter's name. -/
def isNameChar (c : Char) : Bool :=
  Text.isAlphanumeric c || c == '_'

/-- A parameter without a default value. The name is the last word, unless nothing before it can be
a type. -/
def ofDeclaration (d : Text) : Parameter :=
  let (before, name) := d.splitTail isNameChar
  let type := before.trim
  if name = [] ∨ type = [] ∨ type = "const" ∨ "::".toList.isSuffixOf type then
    ⟨[], TypeName.normalize d⟩
  else
    ⟨name, TypeName.normalize type⟩

/-- The parameters of a list. Default values are dropped, and `void` alone is an empty list. -/
def parseList (t : Text) : List Parameter :=
  let t := t.trim
  if t = [] ∨ t = "void" then
    []
  else
    let declarations := t.splitTopLevel.map fun piece =>
      Text.trim (piece.beforeTopLevel '=' 0)
    (declarations.filter (· ≠ [])).map ofDeclaration

end Parameter

namespace Function

/-- The function of a declaration. -/
def ofDeclaration (d : FunctionDeclaration) : Function :=
  let attributes := Attributes.parse d.arguments
  { name := d.name
    displayName := attributes.getD displayNameKey d.name
    returnType := d.returnType
    parameters := Parameter.parseList d.parameters
    isConst := d.isConst
    isScriptable := attributes.hasFlag "LuaBind" }

/-- The function returns nothing. -/
def returnsVoid (f : Function) : Bool :=
  f.returnType == "void"

end Function

end Registrar
