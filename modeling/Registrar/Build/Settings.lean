import Registrar.Path
import Registrar.Toml.Reader

/-!
# Settings of a project

What a project's settings file says: where headers are found and generated files go, how a batch of
headers is spread over workers, and which project files list the generated ones. Paths in the file
are relative to its directory.

A group of settings is a table, or an array that gives its values in order. Names that are not known
are passed over.
-/

namespace Registrar

/-- How a batch of headers is spread. -/
structure Workload where
  /-- Batches with fewer headers are read one after the other. -/
  minFiles : Nat := 8
  /-- The number of workers, where zero leaves it open. -/
  workers : Nat := 0
deriving DecidableEq, Repr

/-- The project files that list generated files. -/
structure ProjectFiles where
  project : Text
  filters : Option Text
deriving DecidableEq, Repr

/-- The settings of a project. -/
structure Settings where
  sourceRoot : Text
  macroHeader : Text
  generatedOut : Text
  cacheFile : Text
  excludeDirs : List Text
  workload : Workload
  projectFiles : Option ProjectFiles
deriving DecidableEq, Repr

/-- The paths of a project, seen from the directory of its settings. -/
structure Layout where
  sourceRoot : Path
  macroHeader : Path
  generatedOut : Path
  cacheFile : Path
  project : Option Path
  filters : Option Path
deriving DecidableEq, Repr

namespace Toml

/-- The values that a group has for given names. A moment is a group without names. -/
def group? (names : List Text) : Toml → Option (List (Option Toml))
  | .table _ fields => some (names.map (Fields.get? fields))
  | .array values => some ((List.range names.length).map (values[·]?))
  | .tables elements =>
    some ((List.range names.length).map fun i => elements[i]?.map (.table .header))
  | .moment => some (names.map fun _ => none)
  | _ => none

/-- A text. -/
def text? : Toml → Option Text
  | .string t => some t
  | _ => none

/-- A number that is not negative. -/
def count? : Toml → Option Nat
  | .integer n => if 0 ≤ n then some n.toNat else none
  | _ => none

/-- A list of texts. -/
def texts? : Toml → Option (List Text)
  | .array values => values.mapM text?
  | _ => none

end Toml

namespace Settings

/-- What a reading makes of a value, or `default` when there is no value. -/
def withDefault {α : Type} (read : Toml → Option α) (default : α) : Option Toml → Option α
  | none => some default
  | some v => read v

/-- How headers are spread over workers. -/
def workload? (v : Toml) : Option Workload := do
  match ← v.group? ["min_files", "workers"] with
  | [minFiles, workers] =>
    return { minFiles := ← withDefault Toml.count? 8 minFiles
             workers := ← withDefault Toml.count? 0 workers }
  | _ => none

/-- The project files. -/
def projectFiles? (v : Toml) : Option ProjectFiles := do
  match ← v.group? ["vcxproj", "filters"] with
  | [project, filters] =>
    return { project := ← (← project).text?
             filters := ← withDefault (fun v => v.text?.map some) none filters }
  | _ => none

/-- Where the cache is kept unless the settings say otherwise. -/
def defaultCacheFile : Text := "Generated/.reflect_cache.json"

/-- The settings of a document. -/
def ofFields? (fields : Toml.Fields) : Option Settings := do
  let group ← (← fields.get? "codegen").group?
    ["source_root", "macro_header", "generated_out", "cache_file", "exclude_dirs", "parallel"]
  match group with
  | [sourceRoot, macroHeader, generatedOut, cacheFile, excludeDirs, workload] =>
    return { sourceRoot := ← (← sourceRoot).text?
             macroHeader := ← (← macroHeader).text?
             generatedOut := ← (← generatedOut).text?
             cacheFile := ← withDefault Toml.text? defaultCacheFile cacheFile
             excludeDirs := ← withDefault Toml.texts? [] excludeDirs
             workload := ← withDefault workload? {} workload
             projectFiles :=
              ← withDefault (fun v => (projectFiles? v).map some) none (fields.get? "project") }
  | _ => none

/-- The settings that a text is. -/
def read? (t : Text) : Option Settings := do
  ofFields? (← Toml.read? t)

/-- The paths of the settings, seen from a directory. -/
def layout (s : Settings) (dir : Path) : Layout where
  sourceRoot := dir.join s.sourceRoot
  macroHeader := dir.join s.macroHeader
  generatedOut := dir.join s.generatedOut
  cacheFile := dir.join s.cacheFile
  project := s.projectFiles.map fun files => dir.join files.project
  filters := s.projectFiles.map fun files =>
    dir.join (files.filters.getD (files.project ++ ".filters"))

end Settings

end Registrar
