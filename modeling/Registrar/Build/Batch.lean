import Registrar.Build.Error
import Registrar.Build.Settings
import Registrar.Digest
import Registrar.Entity.Basic

/-!
# Batches of headers

Every header of a batch is read, digested and parsed for itself, and a header that fails does not
keep the others from being parsed. So a batch may be spread over workers: the result is the same,
in the order of the batch.
-/

namespace Registrar

/-- A header after parsing. -/
structure ParsedHeader where
  path : Path
  /-- Nothing where the header is not reflected. -/
  entity : Option Entity
  hash : Text
  modified : Moment
deriving DecidableEq

namespace ParsedHeader

/-- The header at a path. Bytes that are no text are read as replacement characters. -/
def read (tree : FileTree) (table : MacroTable) (path : Path) : Except BuildError ParsedHeader := do
  let (contents, modified) ← orReadError path (tree.readFile path)
  let entity ← Except.mapError (.header path)
    (Entity.ofText table (path.stem?.getD []) (Utf8.decodeLossy contents))
  return ⟨path, entity, Digest.ofBytes contents, modified⟩

end ParsedHeader

/-- How a batch is worked off. -/
inductive BatchMode
  | sequential
  | pooled
deriving DecidableEq, Repr

/-- A batch of `count` headers goes to a pool when it is large enough. -/
def Workload.mode (w : Workload) (count : Nat) : BatchMode :=
  if count < w.minFiles then .sequential else .pooled

/-- What came of a batch, each part in the order of the batch. -/
structure Batch where
  parsed : List ParsedHeader
  failures : List BuildError
deriving DecidableEq

namespace Batch

/-- The results of a batch, sorted into parsed headers and failures. -/
def ofResults (results : List (Except BuildError ParsedHeader)) : Batch where
  parsed := results.filterMap fun r =>
    match r with
    | .ok h => some h
    | .error _ => none
  failures := results.filterMap fun r =>
    match r with
    | .ok _ => none
    | .error e => some e

/-- The batch of the headers at some paths. -/
def read (tree : FileTree) (table : MacroTable) (paths : List Path) : Batch :=
  ofResults (paths.map (ParsedHeader.read tree table))

end Batch

end Registrar
