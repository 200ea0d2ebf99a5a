import Registrar.Function
import Registrar.Property.Classify

/-!
# Entities

An entity is what one header contributes: a class or structure with its properties, functions and
enumerations, or enumerations alone, which go under the name of the file.
-/

namespace Registrar

/-- What one header contributes. -/
structure Entity where
  name : Text
  /-- Empty where there is no parent. -/
  parent : Text
  kind : EntityKind
  properties : List Property
  functions : List Function
  enums : List Enumeration
  isAbstract : Bool
  isNotSpawnable : Bool
  displayName : Text
  description : Text
  /-- The attributes of the class marker. -/
  attributes : Attributes
deriving DecidableEq

namespace Entity

/-- The class of everything that can be placed in a world. -/
def actorRoot : Text := "AActor"

/-- The class of everything that can be attached to an actor. -/
def componentRoot : Text := "UActorComponent"

/-- An entity without members. -/
def ofAttributes (name parent : Text) (kind : EntityKind) (attributes : Attributes) : Entity where
  name := name
  parent := parent
  kind := kind
  properties := []
  functions := []
  enums := []
  isAbstract := attributes.hasFlag "Abstract"
  isNotSpawnable := attributes.hasFlag "NotSpawnable"
  displayName := attributes.getD displayNameKey []
  description := attributes.getD descriptionKey []
  attributes := attributes

/-- The entity of a header that declares enumerations only. -/
def ofEnums (fileStem : Text) (enums : List Enumeration) : Entity :=
  { ofAttributes fileStem [] .enumOnly Dict.empty with enums := enums }

/-- The first property with a name. -/
def property? (e : Entity) (name : Text) : Option Property :=
  e.properties.find? fun p => p.name = name

/-- The functions that scripts can call. -/
def scriptFunctions (e : Entity) : List Function :=
  e.functions.filter (·.isScriptable)

/-- The property for the name of an object, which the two roots and their direct children get in
front of their own. -/
def objectName? (table : MacroTable) (e : Entity) : Option Property :=
  let named (category owner : String) : Property :=
    Property.classify table
      { Property.bare "ObjectName" "FName" with
        category := category
        isEditable := true
        tooltip := "Name of this " ++ owner }
  match [e.name, e.parent].find? fun name => name = actorRoot ∨ name = componentRoot with
  | none => none
  | some root =>
    if root = actorRoot then some (named "[Actor]" "actor")
    else some (named "[Component]" "component")

/-- The entity of a class or structure with its members. -/
def ofHead (table : MacroTable) (header : Header) (head : ClassHead) :
    Except HeaderError Entity := do
  let properties ← header.properties.mapM Property.ofDeclaration
  let entity := ofAttributes head.name head.parent head.kind (Attributes.parse head.arguments)
  return { entity with
    properties := (objectName? table entity).toList ++ properties.map (Property.classify table)
    functions := header.functions.map Function.ofDeclaration
    enums := header.enums }

/-- The entity of a header; nothing when the header is not reflected. -/
def ofText (table : MacroTable) (fileStem text : Text) : Except HeaderError (Option Entity) := do
  match ← Header.read text with
  | none => return none
  | some header =>
    match header.head with
    | none => return some (ofEnums fileStem header.enums)
    | some head => return some (← ofHead table header head)

end Entity

end Registrar
