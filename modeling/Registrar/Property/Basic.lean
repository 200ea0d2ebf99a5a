import Registrar.Declaration
import Registrar.Number.Decimal

/-!
# Properties

A property is a reflected data member: what its declaration says, and the form of the call that
registers it.
-/

namespace Registrar

/-- The forms of the call that registers a property. -/
inductive Registration
  | scalar
  | ranged
  | array
  | structArray
  | map
  | curve
  | srv
  | script
  | texture
  | staticMesh
  | skeletalMesh
  | material
  | audio
  | particleSystem
  /-- A pointer to an object without a macro of its own. -/
  | objectPtr
  /-- A macro that only the engine's table knows. -/
  | registered (name : Text)
deriving DecidableEq, Repr

namespace Registration

/-- The macro for a property of no special form. -/
def plainMacro : Text := "ADD_PROPERTY"

/-- The forms with a macro of their own. -/
def builtin : List (Registration × Text) :=
  [(scalar, plainMacro),
   (ranged, "ADD_PROPERTY_RANGE"),
   (array, "ADD_PROPERTY_ARRAY"),
   (structArray, "ADD_PROPERTY_STRUCT_ARRAY"),
   (map, "ADD_PROPERTY_MAP"),
   (curve, "ADD_PROPERTY_CURVE"),
   (srv, "ADD_PROPERTY_SRV"),
   (script, "ADD_PROPERTY_SCRIPT"),
   (texture, "ADD_PROPERTY_TEXTURE"),
   (staticMesh, "ADD_PROPERTY_STATICMESH"),
   (skeletalMesh, "ADD_PROPERTY_SKELETALMESH"),
   (material, "ADD_PROPERTY_MATERIAL"),
   (audio, "ADD_PROPERTY_AUDIO"),
   (particleSystem, "ADD_PROPERTY_PARTICLESYSTEM")]

/-- The name of the macro that is called. -/
def macroName : Registration → Text
  | objectPtr => plainMacro
  | registered name => name
  | form => ((builtin.find? fun entry => entry.1 = form).map Prod.snd).getD plainMacro

/-- The form that a macro is for. -/
def ofMacroName (name : Text) : Registration :=
  ((builtin.find? fun entry => entry.2 = name).map Prod.fst).getD (registered name)

end Registration

/-- A reflected data member. -/
structure Property where
  name : Text
  /-- The type as declared, with normal spacing. -/
  declaredType : Text
  category : Text
  isEditable : Bool
  tooltip : Text
  range : Option (Single × Single)
  /-- Further attributes, declared or found by classification. -/
  extra : Dict Text
  registration : Registration
deriving DecidableEq

namespace Property

/-- The attribute that names a script file's extension. -/
def scriptFileKey : Text := "ScriptFile"

/-- The attribute of properties that scripts can read and write. -/
def scriptAccessKey : Text := "LuaReadWrite"

/-- The extension of script files that name none. -/
def defaultScriptExtension : Text := ".lua"

/-- A property without attributes. -/
def bare (name type : Text) : Property where
  name := name
  declaredType := type
  category := []
  isEditable := false
  tooltip := []
  range := none
  extra := Dict.empty
  registration := .scalar

/-- Half of a range: a finite number, with an `f` after it or not. -/
def readBound? (t : Text) : Option Single :=
  let unsuffixed :=
    match t.trim.reverse with
    | 'f' :: r => r.reverse
    | 'F' :: r => r.reverse
    | _ => t.trim
  match Single.read? unsuffixed with
  | some bound => if bound.isFinite then some bound else none
  | none => none

/-- A range: two finite numbers with a comma between them. -/
def readRange? (t : Text) : Option (Single × Single) :=
  match t.splitWhere (· == ',') with
  | [low, high] =>
    match readBound? low, readBound? high with
    | some low, some high => some (low, high)
    | _, _ => none
  | _ => none

/-- The further attributes that a declaration passes on. -/
def declaredExtra (attributes : Attributes) : Dict Text :=
  let access : List (Text × Text) :=
    if attributes.hasFlag scriptAccessKey then [(scriptAccessKey, Attributes.flagValue)] else []
  let script : List (Text × Text) :=
    match attributes.get? scriptFileKey with
    | some extension => [(scriptFileKey, extension)]
    | none => []
  Dict.ofList (access ++ script)

/-- The property of a declaration, not yet classified. -/
def ofDeclaration (d : PropertyDeclaration) : Except HeaderError Property := do
  let attributes := Attributes.parse d.arguments
  let range ←
    match attributes.get? "Range" with
    | none => pure none
    | some value =>
      match readRange? value with
      | some range => pure (some range)
      | none => throw (.invalidRange d.name value)
  return { bare d.name d.type with
    category := attributes.getD "Category" []
    isEditable := attributes.hasFlag "EditAnywhere"
    tooltip := attributes.getD "Tooltip" []
    range := range
    extra := declaredExtra attributes }

/-- The extension of the property's script files. -/
def scriptExtension (p : Property) : Text :=
  p.extra.getD scriptFileKey defaultScriptExtension

end Property

end Registrar
