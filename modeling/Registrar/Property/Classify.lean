import Registrar.MacroTable
import Registrar.Property.Basic

/-!
# Classification of properties

The declared type of a property decides how it is registered. The rules are tried in this order, and
the first that applies wins: class references, maps and arrays by their outermost template; curves
and shader views by a word in the type; pointers by a resource, by the engine's macros, or as object
pointers; script files; ranges; and all else as plain values. Maps and arrays record the kinds of
their elements on the way.
-/

namespace Registrar

/-- The kind of an element of a container. -/
inductive ElementKind
  | bool
  | int32
  | float
  | string
  | name
  | vector
  | vector2D
  | linearColor
  | texture
  | staticMesh
  | skeletalMesh
  | material
  | sound
  | particleSystem
  | objectPtr
  | struct_
  /-- A kind that the engine's table names. -/
  | registered (kind : Text)
deriving DecidableEq, Repr

namespace ElementKind

/-- The name of a kind. -/
def word : ElementKind → Text
  | bool => "Bool"
  | int32 => "Int32"
  | float => "Float"
  | string => "FString"
  | name => "FName"
  | vector => "FVector"
  | vector2D => "FVector2D"
  | linearColor => "FLinearColor"
  | texture => "Texture"
  | staticMesh => "StaticMesh"
  | skeletalMesh => "SkeletalMesh"
  | material => "Material"
  | sound => "Sound"
  | particleSystem => "ParticleSystem"
  | objectPtr => "ObjectPtr"
  | struct_ => "Struct"
  | registered kind => kind

/-- The kind as registration calls name it. -/
def tag (k : ElementKind) : Text :=
  "EPropertyType::" ++ k.word

/-- The kinds of value types, by their names in small letters. -/
def values : List (Text × ElementKind) :=
  [("bool", bool),
   ("int32", int32), ("int", int32), ("uint32", int32), ("unsigned int", int32),
   ("float", float), ("double", float),
   ("fstring", string),
   ("fname", name),
   ("fvector", vector),
   ("fvector2d", vector2D),
   ("flinearcolor", linearColor)]

end ElementKind

/-- A class of resources that has a registration macro of its own. -/
structure Resource where
  registration : Registration
  kind : ElementKind
deriving DecidableEq, Repr

namespace Resource

/-- The resources, by the names of their classes in small letters. -/
def byName : List (Text × Resource) :=
  [("utexture", ⟨.texture, .texture⟩), ("utexture2d", ⟨.texture, .texture⟩),
   ("ustaticmesh", ⟨.staticMesh, .staticMesh⟩),
   ("uskeletalmesh", ⟨.skeletalMesh, .skeletalMesh⟩),
   ("umaterial", ⟨.material, .material⟩),
   ("usound", ⟨.audio, .sound⟩), ("usoundbase", ⟨.audio, .sound⟩),
   ("uparticlesystem", ⟨.particleSystem, .particleSystem⟩)]

/-- The name that a pointer type points to, in small letters, without stars and the word `class`. -/
def pointee (type : Text) : Text :=
  let name := Text.trim (type.lower.filter (· ≠ '*'))
  Text.trim ((name.after? "class ").getD name)

/-- The resource that a pointer type points to. -/
def ofPointer? (type : Text) : Option Resource :=
  (byName.find? fun entry => entry.1 = pointee type).map Prod.snd

end Resource

/-- What a pointer type points to. -/
inductive Pointee
  | resource (r : Resource)
  /-- A type that a macro of the engine's table is for. -/
  | entry (e : MacroEntry)
  | object
deriving DecidableEq, Repr

namespace Pointee

/-- What a pointer type points to: a resource, else the first macro it names, else an object. -/
def ofType (table : MacroTable) (type : Text) : Pointee :=
  match Resource.ofPointer? type with
  | some r => resource r
  | none =>
    match table.forType? type with
    | some e => entry e
    | none => object

/-- The registration of a pointer. -/
def registration : Pointee → Registration
  | resource r => r.registration
  | entry e => .ofMacroName e.name
  | object => .objectPtr

/-- The kind of a pointer in a container. -/
def kind : Pointee → ElementKind
  | resource r => r.kind
  | entry e => .registered e.kind
  | object => .objectPtr

end Pointee

/-- The value types that are not structures, although they are named like them. -/
def builtinValueTypes : List Text :=
  ["FString", "FName", "FVector", "FVector2D", "FLinearColor"]

/-- A type is named like a structure: an `F` and another capital, neither a pointer nor a template,
and not a built-in value type. -/
def isStructName (type : Text) : Bool :=
  let name := type.trim
  let capitals :=
    match name with
    | 'F' :: c :: _ => 'A' ≤ c && c ≤ 'Z'
    | _ => false
  '*' ∉ name && '<' ∉ name && capitals && !builtinValueTypes.contains name

/-- The kind of a container's element, key or value. -/
def ElementKind.ofType (table : MacroTable) (type : Text) : ElementKind :=
  let name := type.trim
  match values.find? fun entry => entry.1 = name.lower with
  | some entry => entry.2
  | none =>
    if '*' ∈ name then (Pointee.ofType table name).kind
    else if isStructName name then .struct_
    else .objectPtr

/-- The templates that have a rule of their own. -/
inductive Template
  | subclassOf
  | map
  | array
deriving DecidableEq, Repr

/-- The outermost template of a type, by its name in any case. -/
def Template.ofType? (type : Text) : Option Template :=
  match TypeName.templateHead? type with
  | none => none
  | some head =>
    if head.lower = "tsubclassof" then some .subclassOf
    else if head.lower = "tmap" then some .map
    else if head.lower = "tarray" then some .array
    else none

namespace Property

/-- The attribute for the base class of a class reference. -/
def baseClassKey : Text := "BaseClass"

/-- The attribute for the kind of a map's keys. -/
def keyTypeKey : Text := "key_type"

/-- The attribute for the kind of a map's values. -/
def valueTypeKey : Text := "value_type"

/-- The attribute for the kind of an array's elements. -/
def innerTypeKey : Text := "inner_type"

/-- The attribute for the structure that an array holds. -/
def structTypeKey : Text := "struct_type"

/-- One of some words occurs in a text, in any case. -/
def mentions (words : List Text) (t : Text) : Bool :=
  words.any fun word => word.occursIn t.lower

/-- The form and the attributes for a type without a template of its own rule. -/
def classifyPlain (table : MacroTable) (p : Property) : Registration × Dict Text :=
  let type := p.declaredType
  if mentions ["ucurve", "fcurve"] type then
    (.curve, p.extra)
  else if mentions ["srv", "shaderresourceview"] type then
    (.srv, p.extra)
  else if '*' ∈ type then
    ((Pointee.ofType table type).registration, p.extra)
  else if p.extra.contains scriptFileKey then
    (.script, p.extra)
  else if type.trim = "FString" ∧ mentions ["script", "lua"] p.name then
    (.script, p.extra.insert scriptFileKey defaultScriptExtension)
  else if p.range.isSome then
    (.ranged, p.extra)
  else
    (.scalar, p.extra)

/-- The form of a property's registration, and its attributes with what is found on the way. -/
def resolve (table : MacroTable) (p : Property) : Registration × Dict Text :=
  match Template.ofType? p.declaredType, TypeName.templateArgs p.declaredType with
  | some .subclassOf, base :: _ => (.scalar, p.extra.insert baseClassKey base)
  | some .subclassOf, [] => (.scalar, p.extra)
  | some .map, key :: value :: _ =>
    (.map, (p.extra.insert keyTypeKey (ElementKind.ofType table key).tag).insert valueTypeKey
      (ElementKind.ofType table value).tag)
  | some .map, _ => (.map, p.extra)
  | some .array, element :: _ =>
    let extra := p.extra.insert innerTypeKey (ElementKind.ofType table element).tag
    if isStructName element then (.structArray, extra.insert structTypeKey element)
    else (.array, extra)
  | some .array, [] => (.array, p.extra)
  | none, _ => classifyPlain table p

/-- The property with its form of registration and the attributes that come with it. -/
def classify (table : MacroTable) (p : Property) : Property :=
  let (registration, extra) := resolve table p
  { p with registration := registration, extra := extra }

end Property

end Registrar
