import Registrar.Text.Basic

/-!
# Paths

A path is a text whose parts are divided by slashes. Paths are kept and shown as they were written,
but compared by their components: a repeated or trailing slash and a dot that is not the first part
say nothing, and two dots stay as they are.
-/

namespace Registrar

/-- A path, as it is written. -/
abbrev Path := Text

namespace Path

/-- A step of a path. -/
inductive Component
  | root
  /-- A dot in front of a relative path. -/
  | current
  | parent
  | name (n : Text)
deriving DecidableEq, Repr

namespace Component

/-- The place of a component's sort in the order of components. -/
def rank : Component → Nat
  | root => 0
  | current => 1
  | parent => 2
  | name _ => 3

/-- The root comes first, then a dot, two dots, and names by their characters. -/
def le : Component → Component → Bool
  | name a, name b => !(b < a : Bool)
  | a, b => a.rank ≤ b.rank

end Component

/-- The parts of a path between its slashes, where the first says how the path starts: an absolute
path starts with an empty part, and a relative one may start with a dot. -/
structure Parts where
  start : Option Component
  body : List Text
deriving DecidableEq, Repr

/-- A part that says nothing. -/
def isIdle (part : Text) : Bool :=
  part == [] || part == ['.']

/-- The parts of a path. -/
def parts (p : Path) : Parts :=
  match p.splitWhere (· == '/') with
  | [] :: first :: body => ⟨some .root, first :: body⟩
  | ['.'] :: body => ⟨some .current, body⟩
  | body => ⟨none, body⟩

namespace Parts

/-- The path with the given parts. -/
def toPath (p : Parts) : Path :=
  match p.start with
  | some .root => '/' :: Text.joinWith "/" p.body
  | some .current => Text.joinWith "/" (['.'] :: p.body)
  | _ => Text.joinWith "/" p.body

/-- The parts without idle ones at the end. -/
def trimEnd (p : Parts) : Parts :=
  { p with body := (p.body.reverse.dropWhile isIdle).reverse }

/-- The component that a part of the body stands for. -/
def componentOf (part : Text) : Component :=
  if part = ['.', '.'] then .parent else .name part

/-- The components of the parts. -/
def components (p : Parts) : List Component :=
  p.start.toList ++ (p.body.filter (!isIdle ·)).map componentOf

end Parts

/-- The components of a path. -/
def components (p : Path) : List Component :=
  p.parts.components

/-- Two paths have the same components. -/
def same (p q : Path) : Bool :=
  p.components == q.components

/-- Order by components, from the first one on. -/
def componentsLe : List Component → List Component → Bool
  | [], _ => true
  | _ :: _, [] => false
  | a :: as, b :: bs => if a = b then componentsLe as bs else a.le b

/-- A path does not come after another in the order of components. -/
def le (p q : Path) : Bool :=
  componentsLe p.components q.components

/-- The path starts at the root. -/
def isAbsolute (p : Path) : Bool :=
  p.head? == some '/'

/-- A path seen from a directory. An absolute path is itself; else the two are put together with one
slash more where the directory does not end in one. -/
def join (dir p : Path) : Path :=
  if p.isAbsolute || dir.isEmpty then p
  else if dir.getLast? = some '/' then dir ++ p
  else dir ++ '/' :: p

/-- The last component, if it is a name. -/
def fileName? (p : Path) : Option Text :=
  match p.components.getLast? with
  | some (.name n) => some n
  | _ => none

/-- A file name cut at its last dot, unless that is its first character. -/
def cutExtension (name : Text) : Text × Option Text :=
  match name.splitTail (· ≠ '.') with
  | ([], _) => (name, none)
  | (['.'], _) => (name, none)
  | (before, extension) => (before.dropLast, some extension)

/-- The file name without its extension. -/
def stem? (p : Path) : Option Text :=
  p.fileName?.map fun name => (cutExtension name).1

/-- The part of the file name after its last dot, unless that is its first character. -/
def extension? (p : Path) : Option Text :=
  p.fileName?.bind fun name => (cutExtension name).2

/-- The path without its last component. The root and the empty path have none. -/
def parent? (p : Path) : Option Path :=
  let parts := p.parts.trimEnd
  match parts.start, parts.body with
  | some .current, [] => some []
  | _, [] => none
  | start, body => some (Parts.toPath (Parts.trimEnd ⟨start, body.dropLast⟩))

/-- The body of a path past its idle parts and past the parts that stand for given components. -/
def dropComponents : List Component → List Text → Option (List Text)
  | [], body => some body
  | _ :: _, [] => none
  | c :: cs, part :: body =>
    if isIdle part then dropComponents (c :: cs) body
    else if Parts.componentOf part = c then dropComponents cs body
    else none

/-- The rest of a path past the components of `base`, when it starts with them. -/
def relativeTo? (p base : Path) : Option Path :=
  let parts := p.parts.trimEnd
  match base.components with
  | [] => some parts.toPath
  | first :: others =>
    let body :=
      match parts.start with
      | none => dropComponents (first :: others) parts.body
      | some start => if start = first then dropComponents others parts.body else none
    body.map fun body => Parts.toPath ⟨none, body.dropWhile isIdle⟩

end Path

end Registrar
