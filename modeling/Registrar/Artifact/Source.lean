import Registrar.Artifact.Literal
import Registrar.Entity.Graph

/-!
# Generated sources

The source that registers an entity: its properties, the functions and properties that scripts can
reach, and its enumerations. Every block is a list of lines.
-/

namespace Registrar.Artifact

/-- Lines as a text, each with its line break. -/
def lines (ls : List Text) : Text :=
  ls.flatMap (· ++ ['\n'])

/-- A call: a name and arguments in parentheses. -/
def call (name : Text) (args : List Text) : Text :=
  name ++ "(" ++ Text.joinWith ", " args ++ ")"

/-- A line inside a block. -/
def indent (line : Text) : Text :=
  "    " ++ line

/-! ## Properties -/

/-- The arguments of a property's registration before the flag that says whether it is editable. -/
def leadingArguments (p : Property) : List Text :=
  let category := quote p.category
  match p.registration with
  | .ranged =>
    let (low, high) := p.range.getD (Single.zero, Single.zero)
    [p.declaredType, p.name, category, number low ++ "f", number high ++ "f"]
  | .structArray => [p.extra.getD Property.structTypeKey "Unknown", p.name, category]
  | .array => [p.extra.getD Property.innerTypeKey ElementKind.objectPtr.tag, p.name, category]
  | .map =>
    [p.extra.getD Property.keyTypeKey ElementKind.string.tag,
     p.extra.getD Property.valueTypeKey ElementKind.int32.tag, p.name, category]
  | .script => [p.declaredType, p.name, category, quote p.scriptExtension]
  | _ => [p.declaredType, p.name, category]

/-- The arguments of a property's registration. A tooltip is the last one, where there is one. -/
def propertyArguments (p : Property) : List Text :=
  let editable : Text := if p.isEditable then "true" else "false"
  leadingArguments p ++ [editable] ++ (if p.tooltip = [] then [] else [quote p.tooltip])

/-- The call that registers a property. -/
def propertyLine (p : Property) : Text :=
  call p.registration.macroName (propertyArguments p)

/-- The line that marks a class for the editor, where its role asks for one. -/
def markLine? (e : Entity) (role : Role) : Option Text :=
  role.markMacro?.map fun mark =>
    let title := if e.displayName = [] then e.name else e.displayName
    let description := if e.description = [] then "Auto-generated " ++ e.name else e.description
    call mark [quote title, quote description]

/-- The block that registers the properties of a class or structure. -/
def propertyBlock (e : Entity) (role : Role) : Text :=
  let opening :=
    if e.kind = .struct_ then
      [call "BEGIN_STRUCT_PROPERTIES" [e.name]]
    else
      call "BEGIN_PROPERTIES" [e.name] :: ((markLine? e role).map indent).toList
  lines (opening ++ e.properties.map (fun p => indent (propertyLine p)) ++
    ["END_PROPERTIES()".toList])

/-! ## Scripts -/

/-- The call that binds a function for scripts. A function that changes its object and returns
nothing is bound by its parameters alone; any other also by what it returns. -/
def methodBinding (owner : Text) (f : Function) : Text :=
  let signature := owner :: f.parameters.map Parameter.type
  let (helper, types) : Text × List Text :=
    if f.returnsVoid && !f.isConst then ("AddMethod", signature)
    else ("AddMethodR", f.returnType :: signature)
  helper ++ "<" ++ Text.joinWith ", " types ++ ">" ++
    call [] ["T".toList, quote f.displayName, "&" ++ owner ++ "::" ++ f.name] ++ ";"

/-- The call that binds a property for scripts. -/
def propertyBinding (owner : Text) (p : Property) : Text :=
  "AddProperty<" ++ Text.joinWith ", " [owner, p.declaredType] ++ ">" ++
    call [] ["T".toList, "\"" ++ p.name ++ "\"", "&" ++ owner ++ "::" ++ p.name] ++ ";"

/-- The properties that scripts can read and write. -/
def scriptProperties (e : Entity) : List Property :=
  e.properties.filter fun p => Attributes.hasFlag p.extra Property.scriptAccessKey

/-- The block of script bindings; nothing when there are none. -/
def scriptBlock? (e : Entity) : Option Text :=
  let bindings := e.scriptFunctions.map (methodBinding e.name) ++
    (scriptProperties e).map (propertyBinding e.name)
  if bindings = [] then
    none
  else
    some (lines ([call "LUA_BIND_BEGIN" [e.name], "\x7b".toList] ++ bindings.map indent ++
      ["\x7d".toList, "LUA_BIND_END()".toList]))

/-! ## Enumerations -/

/-- The block that registers an enumeration. -/
def enumBlock (e : Enumeration) : Text :=
  let item (v : Text × Int64) : Text :=
    indent (call "ADD_ENUM_VALUE" [v.1, Text.ofInt v.2.toInt])
  lines ([call "BEGIN_ENUM" [e.name, e.underlyingType]] ++ e.values.map item ++
    ["END_ENUM()".toList])

/-! ## The whole source -/

/-- The script bindings that a source holds: those of a class. -/
def sourceScriptBlock? (e : Entity) : Option Text :=
  if e.kind = .class_ then scriptBlock? e else none

/-- The blocks of a source, in order. -/
def sourceBlocks (e : Entity) (role : Role) : List Text :=
  (if e.kind = .enumOnly then [] else [propertyBlock e role]) ++
    (sourceScriptBlock? e).toList ++ e.enums.map enumBlock

/-- The source for an entity that comes from a header of the given name. -/
def source (e : Entity) (role : Role) (headerName : Text) : Text :=
  let opening : List Text :=
    ["// Generated by mundi-reflect from " ++ headerName ++ ". Do not edit.",
     "",
     "#include \"pch.h\"",
     "#include \"" ++ headerName ++ "\""] ++
    (if (sourceScriptBlock? e).isSome then ["#include \"LuaBindHelpers.h\"".toList] else [])
  lines opening ++ (sourceBlocks e role).flatMap ('\n' :: ·)

end Registrar.Artifact
