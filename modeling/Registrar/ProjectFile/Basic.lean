import Registrar.Path
import Registrar.Text.Search

/-!
# Project files

A project file lists the files of a build as items in item groups. Files are compiled or included,
by their extension; items are the same when their paths agree up to case and the direction of
slashes. All edits put text into the file and leave the rest as it is.
-/

namespace Registrar

/-- What a build does with a file. -/
inductive ItemKind
  | compile
  | include_
deriving DecidableEq, Repr

namespace ItemKind

/-- The name of the element for items of the kind. -/
def element : ItemKind → Text
  | compile => "ClCompile"
  | include_ => "ClInclude"

/-- The kind of a file. -/
def ofPath? (p : Path) : Option ItemKind :=
  if p.extension? = some "cpp" then some compile
  else if p.extension? = some "h" then some include_
  else none

end ItemKind

/-- A file in a build. -/
structure ProjectItem where
  kind : ItemKind
  /-- The path of the file as the project writes it. -/
  path : Text
deriving DecidableEq, Repr

namespace ProjectItem

/-- A path with backslashes between its parts. -/
def backslashed (path : Text) : Text :=
  path.map fun c => if c = '/' then '\\' else c

/-- What two items share when they stand for the same file. -/
def key (i : ProjectItem) : ItemKind × Text :=
  (i.kind, (backslashed i.path).lower)

/-- The item for a file, with a path seen from the project's directory where it is below that. -/
def ofFile? (projectDir file : Path) : Option ProjectItem :=
  (ItemKind.ofPath? file).map fun kind =>
    ⟨kind, backslashed ((file.relativeTo? projectDir).getD file)⟩

/-- The items for those of the files that a build uses. -/
def ofFiles (projectDir : Path) (files : List Path) : List ProjectItem :=
  files.filterMap (ofFile? projectDir)

/-- The items whose key neither is in `seen` nor belongs to an earlier item. -/
def unseen (seen : List (ItemKind × Text)) : List ProjectItem → List ProjectItem
  | [] => []
  | i :: items =>
    if i.key ∈ seen then unseen seen items else i :: unseen (i.key :: seen) items

end ProjectItem

namespace ProjectFile

/-- The opening of an element up to the quote that starts its path; the rest. -/
def takeOpening? (element t : Text) : Option Text := do
  let rest ← (← (← t.takeChar? '<').after? element).skipBlanks1?
  rest.after? "Include=\""

/-- A value up to a closing quote, which may not be empty; the rest. -/
def takeQuotedValue? (t : Text) : Option (Text × Text) :=
  match t.takeWhile (· ≠ '"'), t.dropWhile (· ≠ '"') with
  | c :: value, _ :: rest => some (c :: value, rest)
  | _, _ => none

/-- The opening of an element with its path; the rest. -/
def takeElement? (element t : Text) : Option (Text × Text) := do
  takeQuotedValue? (← takeOpening? element t)

/-- The opening of an item; the rest. -/
def takeItem? (t : Text) : Option (ProjectItem × Text) :=
  match takeElement? ItemKind.compile.element t with
  | some (path, rest) => some (⟨.compile, path⟩, rest)
  | none =>
    (takeElement? ItemKind.include_.element t).map fun (path, rest) => (⟨.include_, path⟩, rest)

/-- The items that a text lists. -/
def items (t : Text) : List ProjectItem :=
  t.findAll takeItem?

/-- The line break that a text uses. -/
def lineBreak (t : Text) : Text :=
  if Text.occursIn "\r\n" t then "\r\n" else "\n"

/-- Lines put in front of the line where an item group closes. The group is the one that closes
first after `probe` finds something; nothing when there is none. -/
def insertIntoGroup? (probe : Text → Option Text) (lines t : Text) : Option Text := do
  let found ← t.findFirst? (fun t => (probe t).map fun rest => ((), rest)) fun _ => true
  let (inside, after) ← found.rest.cut? "</ItemGroup>"
  return Text.insertBeforeLastLine (found.before ++ found.source ++ inside) lines ++
    "</ItemGroup>" ++ after

/-- Lines put in a group of their own, in front of the line where the project closes, or at the end
of a text that closes no project. -/
def insertNewGroup (lines nl t : Text) : Text :=
  let group := "  <ItemGroup>" ++ nl ++ lines ++ "  </ItemGroup>" ++ nl
  match t.cutLast? "</Project>" with
  | some (before, after) =>
    Text.insertBeforeLastLine before group ++ "</Project>" ++ after
  | none => t ++ group

/-- Lines put into the first group that `probe` finds, or else into a group of their own. -/
def insert (probe : Text → Option Text) (lines nl t : Text) : Text :=
  (insertIntoGroup? probe lines t).getD (insertNewGroup lines nl t)

/-- The lines for items of each kind put in, compiled files first. Nothing is put in where there are
no items of a kind. -/
def insertItems (write : ProjectItem → Text) (items : List ProjectItem) (nl t : Text) : Text :=
  [ItemKind.compile, ItemKind.include_].foldl (fun t kind =>
    let lines := (items.filter (·.kind = kind)).flatMap write
    if lines = [] then t else insert (takeOpening? kind.element) lines nl t) t

/-- The project with an item for each of the files that it lacks; nothing when it has all. -/
def addItems? (t : Text) (projectDir : Path) (files : List Path) : Option Text :=
  let nl := lineBreak t
  let missing := ProjectItem.unseen ((items t).map ProjectItem.key)
    (ProjectItem.ofFiles projectDir files)
  let write (i : ProjectItem) : Text :=
    "    <" ++ i.kind.element ++ " Include=\"" ++ i.path ++ "\" />" ++ nl
  if missing = [] then none else some (insertItems write missing nl t)

end ProjectFile

end Registrar
