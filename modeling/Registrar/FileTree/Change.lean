import Registrar.FileTree.Basic

/-!
# Changing a file tree

Files are written and removed, and directories made, at the end of a path. A change keeps everything
in a directory: nothing takes the place of a directory, and a directory goes only with all below it.

A change of one file or directory happens or fails. One that has several steps may fail after some
of them, and the steps that were taken stay: such a change gives the tree that it leaves behind
beside its result (`makeDirs`, `addFile`, `removeAll`).
-/

namespace Registrar.FileTree

/-- The tree with something else at a location, in place of a file or of nothing. -/
def put (tree : FileTree) (loc : Location) (node : Node) (place : Housed tree.nodes loc)
    (free : tree.node? loc ≠ some .directory) : FileTree where
  nodes := tree.nodes.insert loc node
  workingDir := tree.workingDir
  now := tree.now
  housed := by
    have hfree : tree.nodes.get? loc ≠ some .directory :=
      fun h => free (node?_eq_directory_iff.mpr (Or.inr h))
    have hkeep : ∀ l, Housed tree.nodes l → Housed (tree.nodes.insert loc node) l := by
      rintro l ⟨dir, name, hl, hname, hdir⟩
      refine ⟨dir, name, hl, hname, hdir.imp_right fun hdir => ?_⟩
      have hne : loc ≠ dir := fun h => hfree (h ▸ hdir)
      rw [Dict.get?_insert, if_neg hne, hdir]
    intro l n hn
    rw [Dict.get?_insert] at hn
    split at hn
    · next heq => exact hkeep l (heq ▸ place)
    · exact hkeep l (tree.housed l n hn)

/-- The tree without what stands at the locations that are not kept. Whatever is kept has its
directory kept. -/
def restrict (tree : FileTree) (keep : Location → Bool)
    (closed : ∀ dir name, keep (Location.child dir name) → dir ≠ [] →
      tree.nodes.get? dir = some .directory → keep dir) : FileTree where
  nodes := tree.nodes.filter fun loc _ => keep loc
  workingDir := tree.workingDir
  now := tree.now
  housed := by
    intro l n hn
    rw [Dict.get?_filter] at hn
    split at hn
    · next hl =>
      obtain ⟨dir, name, rfl, hname, hdir⟩ := tree.housed l n hn
      refine ⟨dir, name, rfl, hname, ?_⟩
      by_cases hroot : dir = []
      · exact Or.inl hroot
      · have hdir := hdir.resolve_left hroot
        rw [Dict.get?_filter, if_pos (closed dir name hl hroot hdir), hdir]
        exact Or.inr rfl
    · cases hn

/-- A path without slashes at its end, and whether there were any. -/
def dropSlashes (p : Path) : Path × Bool :=
  let (bare, slashes) := p.splitTail (· == '/')
  (bare, slashes ≠ [])

/-- Why no file is written at a path with a slash at its end: such a path means a directory. The way
to its last name is followed, and the name itself is not looked up. -/
def slashError (tree : FileTree) (p : Path) : FileError :=
  let (way, _) := (dropSlashes p).1.splitTail (· ≠ '/')
  match flaw? p, tree.locate (way ++ ['.']) with
  | some e, _ => e
  | none, .error e => e
  | none, .ok _ => .isDirectory

/-- The tree with a file at a path, in place of a file that stood there. -/
def writeFile (tree : FileTree) (p : Path) (contents : Bytes) : Except FileError FileTree :=
  if p.getLast? = some '/' then .error (tree.slashError p)
  else
    match h : tree.locate p with
    | .error e => .error e
    | .ok loc =>
      if free : tree.node? loc = some .directory then .error .isDirectory
      else .ok (tree.put loc (.file contents tree.now) (housed_of_locate h free) free)

/-- The tree with a text at a path. -/
def writeText (tree : FileTree) (p : Path) (t : Text) : Except FileError FileTree :=
  tree.writeFile p (Utf8.encode t)

/-- The tree without the file at a location. -/
def erase (tree : FileTree) (loc : Location) (free : tree.node? loc ≠ some .directory) :
    FileTree :=
  tree.restrict (fun l => decide (l ≠ loc)) (by
    intro dir name _ hroot hdir
    refine decide_eq_true fun heq => free ?_
    exact node?_eq_directory_iff.mpr (Or.inr (heq ▸ hdir)))

/-- The tree without the file at a path. -/
def removeFile (tree : FileTree) (p : Path) : Except FileError FileTree :=
  match tree.locate p with
  | .error e => .error e
  | .ok loc =>
    if free : tree.node? loc = some .directory then .error .isDirectory
    else if tree.node? loc = none then .error .notFound
    else .ok (tree.erase loc free)

/-- The tree with a new directory at a path. Slashes at the end count for the length of the path, and
for nothing else. -/
def makeDir (tree : FileTree) (p : Path) : Except FileError FileTree :=
  match flaw? p with
  | some e => .error e
  | none =>
    let (bare, asDirectory) := dropSlashes p
    if asDirectory ∧ bare = [] then .error .alreadyExists
    else
      match h : tree.locate bare with
      | .error e => .error e
      | .ok loc =>
        if free : tree.node? loc = none then
          have free : tree.node? loc ≠ some .directory := by simp [free]
          .ok (tree.put loc .directory (housed_of_locate h free) free)
        else .error .alreadyExists

/-- The tree with a directory at a path, which may be there already. -/
def ensureDir (tree : FileTree) (p : Path) : Except FileError FileTree :=
  match tree.makeDir p with
  | .ok tree => .ok tree
  | .error e => if tree.hasDir p then .ok tree else .error e

/-- What a change leaves behind: the changed tree, or the tree as it was where the change fails. -/
def settle (tree : FileTree) : Except FileError FileTree → FileTree × Except FileError Unit
  | .ok changed => (changed, .ok ())
  | .error e => (tree, .error e)

/-- The tree with directories at a path and at up to `steps` paths above it, and whether that
failed. -/
def makeDirsWithin : (steps : Nat) → FileTree → Path → FileTree × Except FileError Unit
  | 0, tree, p => tree.settle (tree.ensureDir p)
  | steps + 1, tree, p =>
    if p = [] then (tree, .ok ())
    else
      match tree.ensureDir p, p.parent? with
      | .error .notFound, some above =>
        match makeDirsWithin steps tree above with
        | (tree, .ok ()) => tree.settle (tree.ensureDir p)
        | (tree, .error e) => (tree, .error e)
      | made, _ => tree.settle made

/-- The tree with a directory at a path and at every path above it, and whether that failed. The
directories are made from the top down, so those above the failure stay. -/
def makeDirs (tree : FileTree) (p : Path) : FileTree × Except FileError Unit :=
  makeDirsWithin (p.components.length + 1) tree p

/-- A location lies below another. -/
def isBelow (loc below : Location) : Bool :=
  (below.after? (loc ++ ['/'])).isSome

theorem isBelow_child {loc dir : Location} (name : Text) (h : dir = loc ∨ isBelow loc dir) :
    isBelow loc (dir.child name) := by
  rcases h with rfl | h
  · rw [isBelow, Location.child, Text.after?_eq_some_iff.mpr (List.append_cons dir '/' name)]
    rfl
  · obtain ⟨rest, hrest⟩ := Option.isSome_iff_exists.mp h
    have hdir := Text.after?_eq_some_iff.mp hrest
    have hchild : dir.child name = loc ++ ['/'] ++ Location.child rest name := by
      rw [hdir, Location.child, Location.child, List.append_assoc]
    rw [isBelow, Text.after?_eq_some_iff.mpr hchild]
    rfl

/-- The tree without what stands below a location. -/
def eraseBelow (tree : FileTree) (loc : Location) : FileTree :=
  tree.restrict (fun l => !isBelow loc l) (by
    intro dir name hchild _ _
    by_cases hdir : isBelow loc dir
    · simp [isBelow_child name (Or.inr hdir)] at hchild
    · simpa using hdir)

/-- The tree without what stands at a location and below it. -/
def eraseAll (tree : FileTree) (loc : Location) : FileTree :=
  tree.restrict (fun l => !(decide (l = loc) || isBelow loc l)) (by
    intro dir name hchild _ _
    by_cases hdir : dir = loc ∨ isBelow loc dir
    · simp [isBelow_child name hdir] at hchild
    · simpa [not_or] using hdir)

/-- The last part of a path is a dot or two, so that it names no entry of a directory. -/
def endsInDots (p : Path) : Bool :=
  let (_, last) := (dropSlashes p).1.splitTail (· ≠ '/')
  last == ['.'] || last == ['.', '.']

/-- The tree without what stands at a path and below it, and whether nothing stands at the path any
more. A directory is emptied first and then removed by its path, which fails where the path ends in
dots. -/
def removeAll (tree : FileTree) (p : Path) : FileTree × Bool :=
  match tree.locate p with
  | .error _ => (tree, false)
  | .ok loc =>
    match tree.node? loc with
    | none => (tree, false)
    | some (.file ..) => (tree.eraseAll loc, true)
    | some .directory =>
      let emptied := tree.eraseBelow loc
      match emptied.locate p with
      | .error _ => (emptied, true)
      | .ok _ => if endsInDots p then (emptied, false) else (emptied.eraseAll loc, true)

/-- The tree with another time of change for the file at a path. -/
def touch (tree : FileTree) (p : Path) (modified : Moment) : Except FileError FileTree :=
  match h : tree.locate p with
  | .error e => .error e
  | .ok loc =>
    match hn : tree.node? loc with
    | none => .error .notFound
    | some .directory => .ok tree
    | some (.file contents _) =>
      have free : tree.node? loc ≠ some .directory := by simp [hn]
      .ok (tree.put loc (.file contents modified) (housed_of_locate h free) free)

/-- The tree that has nothing but a working directory and the directories above it. -/
def ofWorkingDir (dir : Path) : FileTree :=
  let bare : FileTree := ⟨Dict.empty, [], .epoch, by simp⟩
  match bare.makeDirs dir with
  | (tree, .ok ()) => { tree with workingDir := dir }
  | (_, .error _) => bare

/-- The tree with directories for what is at a path, and whether that failed. -/
def makeHome (tree : FileTree) (p : Path) : FileTree × Except FileError Unit :=
  match p.parent? with
  | some above => tree.makeDirs above
  | none => (tree, .ok ())

/-- The tree with a file at a path and directories above it, and whether that failed. -/
def addFile (tree : FileTree) (p : Path) (contents : Bytes) (modified : Moment) :
    FileTree × Except FileError Unit :=
  match tree.makeHome p with
  | (tree, .ok ()) => tree.settle do (← tree.writeFile p contents).touch p modified
  | (tree, .error e) => (tree, .error e)

/-! ## Comparing -/

/-- The files of a tree, by location. -/
def files (tree : FileTree) : List (Location × Bytes) :=
  tree.nodes.entries.filterMap fun (loc, node) =>
    match node with
    | .file contents _ => some (loc, contents)
    | .directory => none

/-- The contents of the file at a location. -/
def contents? (tree : FileTree) (loc : Location) : Option Bytes :=
  match tree.nodes.get? loc with
  | some (.file contents _) => some contents
  | _ => none

/-- The files that differ between two trees: with their new contents, or nothing where the file is
gone. -/
def changes (before after : FileTree) : List (Location × Option Bytes) :=
  (before.files.filterMap fun (loc, _) =>
      if (after.contents? loc).isNone then some (loc, none) else none) ++
    after.files.filterMap fun (loc, contents) =>
      if before.contents? loc = some contents then none else some (loc, some contents)

/-- The directories that the second of two trees has and the first has not, from the top down. -/
def newDirs (before after : FileTree) : List Location :=
  after.nodes.entries.filterMap fun (loc, node) =>
    if node = .directory ∧ before.node? loc ≠ some .directory then some loc else none

end Registrar.FileTree
