import Registrar.ProjectFile.Basic

/-!
# Filters

A filters file sorts the items of a project into filters. Generated files belong to a filter of
their own, which is declared where it is missing. An item that the file lists already is moved to
that filter, another one is added.
-/

namespace Registrar.ProjectFile

/-- The filter for generated files. -/
def generatedFilter : Text := "Generated"

/-- The identifier that declares the filter. -/
def generatedFilterId : Text := "\x7b93995380-89BD-4b04-88EB-625FBE52EBFB\x7d"

/-- The line that puts an item into the filter. -/
def filterLine (nl : Text) : Text :=
  "      <Filter>" ++ generatedFilter ++ "</Filter>" ++ nl

/-- The declaration of a filter; the rest. -/
def takeFilter? (t : Text) : Option (Text × Text) :=
  takeElement? "Filter" t

/-- The text with the filter for generated files declared. -/
def declareFilter (nl t : Text) : Text :=
  if generatedFilter ∈ t.findAll takeFilter? then
    t
  else
    let declaration :=
      "    <Filter Include=\"" ++ generatedFilter ++ "\">" ++ nl ++
      "      <UniqueIdentifier>" ++ generatedFilterId ++ "</UniqueIdentifier>" ++ nl ++
      "    </Filter>" ++ nl
    insert (fun t => (takeFilter? t).map Prod.snd) declaration nl t

/-- An item in the filter, from its opening to its closing tag. -/
def filteredElement (i : ProjectItem) (nl : Text) : Text :=
  "<" ++ i.kind.element ++ " Include=\"" ++ i.path ++ "\">" ++ nl ++ filterLine nl ++
    "    </" ++ i.kind.element ++ ">"

/-- The filter of an item: what stands between the tags; the rest. -/
def takeFilterValue? (t : Text) : Option (Text × Text) := do
  let rest ← t.after? "<Filter>"
  let rest' ← Text.after? (rest.dropWhile (· ≠ '<')) "</Filter>"
  return (rest.takeWhile (· ≠ '<'), rest')

/-- The children of an item, with their filter set, where `before` is the text before them. The
first filter gets a new value; where there is none, a line with one goes in front of the last line
so far. -/
def setFilter (before children nl : Text) : Text :=
  match children.findFirst? takeFilterValue? fun _ => true with
  | some found =>
    before ++ found.before ++ "<Filter>" ++ generatedFilter ++ "</Filter>" ++ found.rest
  | none => Text.insertBeforeLastLine (before ++ children) (filterLine nl)

/-- The text with a listed item moved to the filter; nothing when the item is not listed. An item
that closes itself is opened up. A tag that is never closed stays as it is. -/
def assign? (i : ProjectItem) (nl t : Text) : Option Text :=
  (t.findFirst? takeItem? fun listed => listed.key = i.key).map fun found =>
    let opening := found.before ++ found.source
    let closingTag := "</" ++ i.kind.element ++ ">"
    match found.rest.cut? ">" with
    | none => t
    | some (attributes, after) =>
      if attributes.trimEnd.getLast? = some '/' then
        found.before ++ filteredElement found.value nl ++ after
      else
        match found.rest.cut? closingTag with
        | none => t
        | some (children, after) => setFilter opening children nl ++ closingTag ++ after

/-- The items moved to the filter where they are listed, and those that are not. -/
def assignAll (nl : Text) : List ProjectItem → Text → Text × List ProjectItem
  | [], t => (t, [])
  | i :: items, t =>
    match assign? i nl t with
    | some t => assignAll nl items t
    | none =>
      let (t, missing) := assignAll nl items t
      (t, i :: missing)

/-- The filters file with the filter declared and an item for each of the files in it; nothing when
that is so already. -/
def addFilters? (t : Text) (projectDir : Path) (files : List Path) : Option Text :=
  let nl := lineBreak t
  let wanted := ProjectItem.unseen [] (ProjectItem.ofFiles projectDir files)
  let (assigned, missing) := assignAll nl wanted (declareFilter nl t)
  let write (i : ProjectItem) : Text := "    " ++ filteredElement i nl ++ nl
  let patched := insertItems write missing nl assigned
  if patched = t then none else some patched

end Registrar.ProjectFile
