import Registrar.Text.Basic

/-!
# TOML documents

A document is a list of statements: a header opens a table or adds one to an array of tables, and an
assignment puts a value into the table that is open. Where a table came from decides who may add to
it: a table that was opened by a header is not opened again, and one that was written out as a value
is complete.
-/

namespace Registrar

/-- How a table came to be. -/
inductive TableOrigin
  /-- A header opened it. -/
  | header
  /-- A header opened a table below it. -/
  | implied
  /-- A dotted key put something into it. -/
  | dotted
  /-- It was written out as a value. -/
  | inline
deriving DecidableEq, Repr

/-- A value of a document. Of values that no setting has, only the sort is kept. -/
inductive Toml
  | string (t : Text)
  | integer (n : Int)
  | float
  | boolean (b : Bool)
  | moment
  | array (values : List Toml)
  | table (origin : TableOrigin) (fields : List (Text × Toml))
  /-- An array of tables, each of which a header added. -/
  | tables (elements : List (List (Text × Toml)))

namespace Toml

/-- The fields of a table, each key once. -/
abbrev Fields := List (Text × Toml)

/-- A step of a document. A path leads to a table, from which the key is taken. -/
inductive Statement
  | openTable (path : List Text) (key : Text)
  | addTable (path : List Text) (key : Text)
  | assign (path : List Text) (key : Text) (value : Toml)

namespace Fields

/-- The value of a key. -/
def get? (fields : Fields) (key : Text) : Option Toml :=
  fields.lookup key

/-- The fields with another value for a key, which comes last if it is new. -/
def set : (fields : Fields) → (key : Text) → (value : Toml) → Fields
  | [], key, value => [(key, value)]
  | (k, v) :: fields, key, value =>
    if k = key then (k, value) :: fields else (k, v) :: set fields key value

/-- Edits the table at the end of a path. Tables that are missing on the way get the origin `new`;
an array of tables stands for its last element; nothing leads into a value, and a dotted key does
not lead into a table that a header opened. -/
def editAt (new : TableOrigin) (edit : TableOrigin → Fields → Option Fields) :
    (path : List Text) → TableOrigin → Fields → Option Fields
  | [], origin, fields => edit origin fields
  | key :: path, _, fields =>
    match fields.get? key with
    | none =>
      (editAt new edit path new []).map fun sub => fields.set key (.table new sub)
    | some (.table origin sub) =>
      if origin = .inline ∨ (new = .dotted ∧ origin = .header) then none
      else (editAt new edit path origin sub).map fun sub => fields.set key (.table origin sub)
    | some (.tables elements) =>
      match elements.getLast? with
      | none => none
      | some last =>
        (editAt new edit path .header last).map fun last =>
          fields.set key (.tables (elements.dropLast ++ [last]))
    | some _ => none

/-- Puts a value under a dotted key, whose last part must be new. A dotted key adds only to tables
that dotted keys made. -/
def assign (path : List Text) (key : Text) (value : Toml) (origin : TableOrigin) (fields : Fields) :
    Option Fields :=
  editAt .dotted
    (fun origin fields =>
      if path ≠ [] ∧ origin ≠ .dotted then none
      else if (fields.get? key).isSome then none
      else some (fields.set key value))
    path origin fields

/-- Opens the table of a header, which must be new or implied. -/
def openTable (key : Text) (fields : Fields) : Option Fields :=
  match fields.get? key with
  | none => some (fields.set key (.table .header []))
  | some (.table .implied sub) => some (fields.set key (.table .header sub))
  | some _ => none

/-- Adds an empty table to an array of tables, which may be new. -/
def addTable (key : Text) (fields : Fields) : Option Fields :=
  match fields.get? key with
  | none => some (fields.set key (.tables [[]]))
  | some (.tables elements) => some (fields.set key (.tables (elements ++ [[]])))
  | some _ => none

end Fields

/-- A document as far as it was read: the path of the open table, and the fields. -/
structure Document where
  current : List Text := []
  fields : Fields := []

namespace Document

/-- The document after a statement, if the statement is allowed. -/
def step (d : Document) : Statement → Option Document
  | .openTable path key =>
    (Fields.editAt .implied (fun _ => Fields.openTable key) path .header d.fields).map
      (⟨path ++ [key], ·⟩)
  | .addTable path key =>
    (Fields.editAt .implied (fun _ => Fields.addTable key) path .header d.fields).map
      (⟨path ++ [key], ·⟩)
  | .assign path key value =>
    (Fields.editAt .implied (Fields.assign path key value) d.current .header d.fields).map
      (⟨d.current, ·⟩)

/-- The document of a list of statements. -/
def ofStatements? (statements : List Statement) : Option Document :=
  statements.foldlM step {}

end Document

end Toml

end Registrar
