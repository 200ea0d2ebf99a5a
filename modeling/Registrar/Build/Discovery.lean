import Registrar.Artifact.Basic
import Registrar.FileTree.Change

/-!
# Finding headers

The headers of a project are looked for in its source directory and below, except in the directory
that generated files go to and in directories with certain names.
-/

namespace Registrar.Discovery

/-- Names of directories that are never searched. -/
def excludedDirs : List Text :=
  ["Generated", "Binaries", "Intermediate", ".git", ".vs"]

/-- What a search leaves out: a directory, and directories with certain names. -/
structure Exclusion where
  out : Path
  names : List Text
deriving DecidableEq, Repr

/-- The directory with a name at a path is not searched. -/
def Exclusion.covers (e : Exclusion) (name : Text) (p : Path) : Bool :=
  excludedDirs.contains name || e.names.contains name || p.same e.out

/-- A file with the name is a header, and not a generated one. -/
def isHeaderName (name : Text) : Bool :=
  (".h" : Text).isSuffixOf name && !Artifact.headerSuffix.isSuffixOf name

/-- The headers in a directory and below, down to `depth` levels. -/
def collect (tree : FileTree) (e : Exclusion) : (depth : Nat) → (dir : Path) → List Path
  | 0, _ => []
  | depth + 1, dir =>
    match tree.list dir with
    | .error _ => []
    | .ok entries =>
      entries.flatMap fun (name, node) =>
        let p := dir.join name
        match node with
        | .directory => if e.covers name p then [] else collect tree e depth p
        | .file .. => if isHeaderName name then [p] else []

/-- The headers below a directory, in the order of paths. No file is deeper than there are nodes. -/
def headers (tree : FileTree) (root : Path) (e : Exclusion) : List Path :=
  (collect tree e (tree.nodes.size + 1) root).mergeSort Path.le

end Registrar.Discovery
