import Registrar.Artifact.Body
import Registrar.Path

/-!
# Artifacts

The files that are generated for an entity: a header with its body, unless it has enumerations only,
and a source with its registrations.
-/

namespace Registrar

/-- A generated file. -/
structure Artifact where
  path : Path
  contents : Text
deriving DecidableEq, Repr

namespace Artifact

/-- The ending of a generated header's name. -/
def headerSuffix : Text := ".generated.h"

/-- The ending of a generated source's name. -/
def sourceSuffix : Text := ".generated.cpp"

/-- The path of the generated header. -/
def headerPath (e : Entity) (outDir : Path) : Path :=
  outDir.join (e.name ++ headerSuffix)

/-- The path of the generated source. -/
def sourcePath (e : Entity) (outDir : Path) : Path :=
  outDir.join (e.name ++ sourceSuffix)

/-- The artifacts of an entity. -/
def render (e : Entity) (role : Role) (headerName : Text) (outDir : Path) : List Artifact :=
  (if e.kind = .enumOnly then [] else [⟨headerPath e outDir, body e⟩]) ++
    [⟨sourcePath e outDir, source e role headerName⟩]

/-- The paths of an entity's artifacts. -/
def paths (e : Entity) (outDir : Path) : List Path :=
  (if e.kind = .enumOnly then [] else [headerPath e outDir]) ++ [sourcePath e outDir]

end Artifact

end Registrar
