import Registrar.Declaration

/-!
# Headers

What a header declares to be reflected. Reading works on the text without comments. A header that
asks for a generated body must have a class or structure head; one that has none of the markers of
interest is not reflected, which is not an error. Errors in enumerations come before all others,
then the class head, the properties and the functions, each at its first site.
-/

namespace Registrar

/-- The attributes that an entity, an enumeration or a function can declare. -/
def displayNameKey : Text := "DisplayName"

/-- The attribute for a description. -/
def descriptionKey : Text := "Description"

/-- The reflected declarations of a header. -/
structure Header where
  /-- Nothing for a header that declares enumerations only. -/
  head : Option ClassHead
  properties : List PropertyDeclaration
  functions : List FunctionDeclaration
  enums : List Enumeration
deriving DecidableEq, Repr

namespace Header

/-- What each site of a marker declares, in order, up to the first error. -/
def readSites {α : Type} (m : Marker)
    (read : Site → Text → Text → Except HeaderError (Option α)) (t : Text) :
    Except HeaderError (List α) := do
  let found ← (m.sites t).mapM fun site => do
    let (arguments, rest) ← m.arguments site
    read site arguments rest
  return found.filterMap id

/-- The head of the class that the first class marker announces, or else of the structure that the
first structure marker announces. -/
def readHead (t : Text) : Except HeaderError (Option ClassHead) :=
  match Marker.class_.sites t, Marker.struct_.sites t with
  | site :: _, _ => do
    let (arguments, rest) ← Marker.class_.arguments site
    return (ClassHead.findWord? ClassHead.readClass? rest).map fun (name, parent) =>
      ⟨.class_, name, parent, arguments⟩
  | [], site :: _ => do
    let (arguments, rest) ← Marker.struct_.arguments site
    return (ClassHead.findWord? ClassHead.readStruct? rest).map fun name =>
      ⟨.struct_, name, [], arguments⟩
  | [], [] => .ok none

/-- The property declared after a marker, if there is one within reach. -/
def readProperty (arguments rest : Text) : Option PropertyDeclaration :=
  (PropertyDeclaration.read? (rest.take PropertyDeclaration.window)).map fun (type, name) =>
    ⟨arguments, type, name⟩

/-- The function declared after a marker, if there is one. A parameter list that never closes is an
error. -/
def readFunction (site : Site) (arguments rest : Text) :
    Except HeaderError (Option FunctionDeclaration) :=
  match FunctionDeclaration.takeHead? rest with
  | none => .ok none
  | some (before, name, rest) =>
    let returnType := FunctionDeclaration.stripSpecifiers before
    if returnType = [] then
      .ok none
    else
      match rest.parenthesised? with
      | none => .error (.unbalanced .function site.place.offset)
      | some (parameters, rest) =>
        .ok ((FunctionDeclaration.readTail? rest).map fun isConst =>
          ⟨arguments, returnType, name, parameters.trim, isConst⟩)

/-- The enumeration declared after a marker, if there is one. A body that never closes is an
error. -/
def readEnum (site : Site) (arguments rest : Text) : Except HeaderError (Option Enumeration) :=
  match Enumeration.takeHead? rest with
  | none => .ok none
  | some (name, underlying, rest) =>
    match rest.balanced? '{' '}' with
    | none => .error (.unbalanced .enum site.place.offset)
    | some (body, _) =>
      let attributes := Attributes.parse arguments
      .ok (some ⟨name, underlying, Enumeration.itemValues body,
        attributes.getD displayNameKey [], attributes.getD descriptionKey []⟩)

/-- The reflected declarations of a text without comments. -/
def readStripped (t : Text) : Except HeaderError (Option Header) := do
  if !asksForBody t && (Marker.enum.sites t).isEmpty then
    return none
  let enums ← readSites .enum readEnum t
  if !asksForBody t then
    return some ⟨none, [], [], enums⟩
  match ← readHead t with
  | none => return none
  | some head =>
    let properties ← readSites .property (fun _ arguments rest =>
      .ok (readProperty arguments rest)) t
    let functions ← readSites .function readFunction t
    return some ⟨some head, properties, functions, enums⟩

/-- The reflected declarations of a header; nothing when it is not reflected. -/
def read (t : Text) : Except HeaderError (Option Header) :=
  readStripped t.stripComments

end Header

end Registrar
