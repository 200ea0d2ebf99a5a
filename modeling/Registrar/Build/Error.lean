import Registrar.FileTree.Change
import Registrar.Marker

/-!
# Failures of a build

What can go wrong with one file of a build, and what the user is told.
-/

namespace Registrar

/-- A failure at a path. -/
inductive BuildError
  | read (path : Path) (cause : FileError)
  | write (path : Path) (cause : FileError)
  /-- The settings cannot be understood. -/
  | settings (path : Path)
  | header (path : Path) (cause : HeaderError)
deriving DecidableEq, Repr

/-- The message for the user. -/
def BuildError.message : BuildError → Text
  | read path cause => "failed to read " ++ path ++ ": " ++ cause.message
  | write path cause => "failed to write " ++ path ++ ": " ++ cause.message
  | settings path => "invalid config " ++ path
  | header path cause => path ++ ": " ++ cause.message

/-- What an operation gives back, where a failure is about reading a path. -/
def orReadError {α : Type} (path : Path) : Except FileError α → Except BuildError α :=
  Except.mapError (.read path)

/-- What an operation gives back, where a failure is about writing a path. -/
def orWriteError {α : Type} (path : Path) : Except FileError α → Except BuildError α :=
  Except.mapError (.write path)

end Registrar
