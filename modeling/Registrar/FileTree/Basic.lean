import Registrar.Dict
import Registrar.Moment
import Registrar.Path
import Registrar.Utf8

/-!
# File trees

A file tree holds directories and files, each at a location: the names on the way from the root,
with a slash in front of every one. Everything in a tree stands in a directory of the tree
(`FileTree.housed`), so the directories above a file are always there (`node?_parent`).

A path is looked up step by step. Every step starts from a directory, and two dots lead back to the
one above. Reading fails for the reasons that a user is told of (`FileError`).
-/

namespace Registrar

/-- Why a file operation fails. -/
inductive FileError
  | notFound
  | alreadyExists
  | notDirectory
  | isDirectory
  /-- A name, or a path as a whole, has too many bytes. -/
  | nameTooLong
  /-- A path has a null character, which no name has. -/
  | nullInName
  /-- The contents are no text. -/
  | notText
deriving DecidableEq, Repr

/-- The message for the user. -/
def FileError.message : FileError → Text
  | notFound => "No such file or directory (os error 2)"
  | alreadyExists => "File exists (os error 17)"
  | notDirectory => "Not a directory (os error 20)"
  | isDirectory => "Is a directory (os error 21)"
  | nameTooLong => "File name too long (os error 36)"
  | nullInName => "file name contained an unexpected NUL byte"
  | notText => "stream did not contain valid UTF-8"

/-- What stands at a location. -/
inductive Node
  | directory
  | file (contents : Bytes) (modified : Moment)
deriving DecidableEq, Repr

/-- A place in a file tree: nothing for the root, and a slash and a name for every step below. -/
abbrev Location := Text

namespace Location

/-- The location of an entry in a directory. -/
def child (loc : Location) (name : Text) : Location :=
  loc ++ '/' :: name

/-- The location of the directory above; the root is above itself. -/
def parent (loc : Location) : Location :=
  (loc.splitTail (· ≠ '/')).1.dropLast

/-- The location as a path. -/
def toPath (loc : Location) : Path :=
  if loc = [] then "/" else loc

theorem parent_child {loc : Location} {name : Text} (h : '/' ∉ name) :
    (child loc name).parent = loc := by
  have hname : ∀ c ∈ name.reverse, (!decide (c = '/')) = true := by
    intro c hc
    have hne : c ≠ '/' := fun he => h (he ▸ List.mem_reverse.mp hc)
    simp [hne]
  simp [parent, child, Text.splitTail, List.dropWhile_append_of_pos hname]

theorem child_ne_nil (loc : Location) (name : Text) : child loc name ≠ [] := by
  simp [child]

end Location

/-- A name of an entry in a directory, so neither idle nor a step back. -/
structure FileTree.IsEntryName (name : Text) : Prop where
  slash : '/' ∉ name
  idle : Path.isIdle name = false
  back : name ≠ ['.', '.']

/-- A location is that of a named entry in the root or in a directory of `nodes`. -/
def Housed (nodes : Dict Node) (loc : Location) : Prop :=
  ∃ dir name, loc = Location.child dir name ∧ FileTree.IsEntryName name ∧
    (dir = [] ∨ nodes.get? dir = some .directory)

/-- A file tree, the directory in which relative paths start, and the time of its clock. -/
structure FileTree where
  nodes : Dict Node
  workingDir : Location
  now : Moment
  housed : ∀ loc node, nodes.get? loc = some node → Housed nodes loc
deriving DecidableEq

namespace FileTree

/-! ## Looking up -/

/-- What stands at a location. The root is a directory. -/
def node? (tree : FileTree) (loc : Location) : Option Node :=
  if loc = [] then some .directory else tree.nodes.get? loc

theorem node?_eq_directory_iff {tree : FileTree} {loc : Location} :
    tree.node? loc = some .directory ↔ loc = [] ∨ tree.nodes.get? loc = some .directory := by
  by_cases h : loc = []
  · simp [node?, h]
  · simp [node?, h]

/-- What stands in a tree stands in a directory. -/
theorem node?_parent {tree : FileTree} {loc : Location} {node : Node}
    (h : tree.node? loc = some node) : tree.node? loc.parent = some .directory := by
  by_cases hroot : loc = []
  · subst hroot
    rfl
  · rw [node?, if_neg hroot] at h
    obtain ⟨dir, name, rfl, hname, hdir⟩ := tree.housed loc node h
    rw [Location.parent_child hname.slash]
    exact node?_eq_directory_iff.mpr hdir

/-- The most bytes that a name has. -/
def maxNameBytes : Nat := 255

/-- The most bytes that a path has. -/
def maxPathBytes : Nat := 4095

/-- The location that the parts of a path lead to. Each part is a step out of a directory. -/
def walk (tree : FileTree) : (parts : List Text) → Location → Except FileError Location
  | [], loc => .ok loc
  | part :: parts, loc =>
    match tree.node? loc with
    | none => .error .notFound
    | some (.file ..) => .error .notDirectory
    | some .directory =>
      if Path.isIdle part then tree.walk parts loc
      else if part = ['.', '.'] then tree.walk parts loc.parent
      else if maxNameBytes < part.byteLength then .error .nameTooLong
      else tree.walk parts (loc.child part)

/-- What is wrong with a path before it is followed. -/
def flaw? (p : Path) : Option FileError :=
  if p = [] then some .notFound
  else if '\x00' ∈ p then some .nullInName
  else if maxPathBytes < p.byteLength then some .nameTooLong
  else none

/-- The location of a path, at which nothing need stand yet. -/
def locate (tree : FileTree) (p : Path) : Except FileError Location :=
  match flaw? p with
  | some e => .error e
  | none => tree.walk (p.splitWhere (· == '/')) (if p.isAbsolute then [] else tree.workingDir)

/-- A walk ends at a directory or at a place for an entry in one. -/
theorem housed_of_walk {tree : FileTree} {part : Text} {parts : List Text} {start loc : Location}
    (hparts : ∀ q ∈ part :: parts, '/' ∉ q) (h : tree.walk (part :: parts) start = .ok loc) :
    tree.node? loc = some .directory ∨ Housed tree.nodes loc := by
  induction parts generalizing part start with
  | nil =>
      rw [walk] at h
      split at h
      · cases h
      · cases h
      · next hnode =>
        split at h
        · simp only [walk, Except.ok.injEq] at h
          exact Or.inl (h ▸ hnode)
        · next hidle =>
          split at h
          · simp only [walk, Except.ok.injEq] at h
            exact Or.inl (h ▸ node?_parent hnode)
          · next hback =>
            split at h
            · cases h
            · simp only [walk, Except.ok.injEq] at h
              have hname : IsEntryName part :=
                ⟨hparts part List.mem_cons_self, eq_false_of_ne_true hidle, hback⟩
              exact Or.inr ⟨start, part, h.symm, hname, node?_eq_directory_iff.mp hnode⟩
  | cons next parts ih =>
      have hrest : ∀ q ∈ next :: parts, '/' ∉ q :=
        fun q hq => hparts q (List.mem_cons_of_mem _ hq)
      rw [walk] at h
      split at h
      · cases h
      · cases h
      · split at h
        · exact ih hrest h
        · split at h
          · exact ih hrest h
          · split at h
            · cases h
            · exact ih hrest h

/-- A path leads to a directory or to a place for an entry in one. -/
theorem housed_of_locate {tree : FileTree} {p : Path} {loc : Location}
    (h : tree.locate p = .ok loc) (hdir : tree.node? loc ≠ some .directory) :
    Housed tree.nodes loc := by
  have hslash : ∀ part ∈ p.splitWhere (· == '/'), '/' ∉ part := by
    intro part hpart hc
    simpa using Text.eq_false_of_mem_splitWhere hpart '/' hc
  rw [locate] at h
  split at h
  · cases h
  · obtain ⟨part, parts, hparts⟩ :=
      List.exists_cons_of_ne_nil (Text.splitWhere_ne_nil (· == '/') p)
    rw [hparts] at h hslash
    exact (housed_of_walk hslash h).resolve_left hdir

/-- What stands at a path. -/
def find (tree : FileTree) (p : Path) : Except FileError Node := do
  match tree.node? (← tree.locate p) with
  | some node => .ok node
  | none => .error .notFound

/-- Something stands at the path. -/
def contains (tree : FileTree) (p : Path) : Bool :=
  match tree.find p with
  | .ok _ => true
  | .error _ => false

/-- A directory stands at the path. -/
def hasDir (tree : FileTree) (p : Path) : Bool :=
  match tree.find p with
  | .ok .directory => true
  | _ => false

/-- The path of what stands at a path, without idle parts and steps back. -/
def canonical (tree : FileTree) (p : Path) : Except FileError Path := do
  let loc ← tree.locate p
  match tree.node? loc with
  | some _ => .ok loc.toPath
  | none => .error .notFound

/-! ## Reading -/

/-- The contents of a file and when it was changed. -/
def readFile (tree : FileTree) (p : Path) : Except FileError (Bytes × Moment) := do
  match ← tree.find p with
  | .file contents modified => .ok (contents, modified)
  | .directory => .error .isDirectory

/-- The contents of a file that is a text. -/
def readText (tree : FileTree) (p : Path) : Except FileError Text := do
  let (contents, _) ← tree.readFile p
  match Utf8.decode? contents with
  | some t => .ok t
  | none => .error .notText

/-- The name of an entry that stands directly in a directory. -/
def childName? (dir loc : Location) : Option Text :=
  match loc.after? (dir ++ ['/']) with
  | some name => if '/' ∈ name then none else some name
  | none => none

/-- The entries of a directory. -/
def list (tree : FileTree) (p : Path) : Except FileError (List (Text × Node)) := do
  let loc ← tree.locate p
  match tree.node? loc with
  | none => .error .notFound
  | some (.file ..) => .error .notDirectory
  | some .directory =>
    .ok (tree.nodes.entries.filterMap fun (l, node) => (childName? loc l).map (·, node))

end FileTree

end Registrar
