import Registrar.Entity.Basic
import Registrar.Json.Basic

/-!
# Entities as JSON

The form in which an entity is shown to the user.
-/

namespace Registrar

namespace Json

/-- Numbers are written out from 0.000001 up to, not including, 10^13; a midpoint goes to the even
neighbour, and a power of ten always has a sign. -/
def numberLayout : DecimalLayout where
  tie := .even
  plainFrom := -5
  plainTo := 13
  plusSign := true

/-- A number; one that is not finite has no form and is shown as null. -/
def ofSingle : Single → Json
  | .finite negative mantissa exponent =>
    number (numberLayout.write negative mantissa exponent)
  | _ => null

/-- A dictionary of texts. -/
def ofDict (d : Dict Text) : Json :=
  object (d.entries.map fun (key, value) => (key, string value))

end Json

/-- The word for a kind of entity. -/
def EntityKind.word : EntityKind → Text
  | class_ => "class"
  | struct_ => "struct"
  | enumOnly => "enum_only"

/-- The property as a value. -/
def Property.toJson (p : Property) : Json :=
  .object [
    ("name", .string p.name),
    ("declared_type", .string p.declaredType),
    ("category", .string p.category),
    ("is_editable", .bool p.isEditable),
    ("tooltip", .string p.tooltip),
    ("numeric_range",
      match p.range with
      | some (low, high) => .array [.ofSingle low, .ofSingle high]
      | none => .null),
    ("extra_metadata", .ofDict p.extra),
    ("kind", .string p.registration.macroName)]

/-- The parameter as a value. -/
def Parameter.toJson (p : Parameter) : Json :=
  .object [("name", .string p.name), ("ty", .string p.type)]

/-- The function as a value. -/
def Function.toJson (f : Function) : Json :=
  .object [
    ("name", .string f.name),
    ("display_name", .string f.displayName),
    ("return_type", .string f.returnType),
    ("parameters", .array (f.parameters.map Parameter.toJson)),
    ("is_const", .bool f.isConst),
    ("is_script_bindable", .bool f.isScriptable)]

/-- The enumeration as a value. -/
def Enumeration.toJson (e : Enumeration) : Json :=
  .object [
    ("name", .string e.name),
    ("underlying_type", .string e.underlyingType),
    ("values", .array (e.values.map fun (item, n) => .array [.string item, .ofInt n.toInt])),
    ("display_name", .string e.displayName),
    ("description", .string e.description)]

/-- The entity as a value. -/
def Entity.toJson (e : Entity) : Json :=
  .object [
    ("name", .string e.name),
    ("parent_name", .string e.parent),
    ("kind", .string e.kind.word),
    ("properties", .array (e.properties.map Property.toJson)),
    ("functions", .array (e.functions.map Function.toJson)),
    ("enums", .array (e.enums.map Enumeration.toJson)),
    ("is_abstract", .bool e.isAbstract),
    ("is_not_spawnable", .bool e.isNotSpawnable),
    ("display_name", .string e.displayName),
    ("description", .string e.description),
    ("declared_metadata", .ofDict e.attributes)]

end Registrar
