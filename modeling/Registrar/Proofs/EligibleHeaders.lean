import Registrar.Proofs.AddedHeaders
import Mathlib.Data.List.Perm.Basic

/-!
# Exactly the eligible headers are found

`Eligible` says without a search which paths below a root are those of headers: the directories on
the way are listed one in the other, none of them is excluded, and the last one lists a file with
the name of a header. A search finds nothing else (`exists_eligible_of_mem_collect`), by induction
on the levels it may go down, and it finds all of them (`Eligible.mem_collect`), by induction on the
way: every step leaves fewer nodes below, so the levels never run out.

`collectIn` is the search where every directory lists its entries in an order of its own. It finds
the same paths in another order (`collectIn_perm`), and sorting takes the order away.
-/

namespace Registrar

namespace FileTree

/-- The directory at a path lists an entry. -/
def Lists (tree : FileTree) (dir : Path) (name : Text) (node : Node) : Prop :=
  ∃ entries, tree.list dir = .ok entries ∧ (name, node) ∈ entries

/-- An entry is listed where the path of its directory leads. -/
theorem lists_iff {tree : FileTree} {dir : Path} {name : Text} {node : Node} :
    tree.Lists dir name node ↔ ∃ loc, tree.locate dir = .ok loc ∧ '/' ∉ name ∧
      tree.node? (loc.child name) = some node := by
  constructor
  · rintro ⟨entries, hlist, hmem⟩
    obtain ⟨loc, hloc, hentries⟩ := Header.bind_eq_ok_iff.mp hlist
    split at hentries
    · cases hentries
    · cases hentries
    · cases hentries
      obtain ⟨⟨key, value⟩, hkey, hname⟩ := List.mem_filterMap.mp hmem
      obtain ⟨_, hchild, heq⟩ := Option.map_eq_some_iff.mp hname
      cases heq
      obtain ⟨rfl, hslash⟩ := childName?_eq_some_iff.mp hchild
      exact ⟨loc, hloc, hslash, (node?_child _ _ _).trans (Dict.mem_entries_iff.mp hkey)⟩
  · rintro ⟨loc, hloc, hslash, hnode⟩
    have hdir := node?_parent hnode
    rw [Location.parent_child hslash] at hdir
    refine ⟨_, Header.bind_eq_ok_iff.mpr ⟨loc, hloc, by rw [hdir]⟩, ?_⟩
    rw [node?_child] at hnode
    refine List.mem_filterMap.mpr ⟨(loc.child name, node), Dict.mem_entries_iff.mpr hnode, ?_⟩
    dsimp only
    rw [childName?_eq_some_iff.mpr ⟨rfl, hslash⟩]
    rfl

end FileTree

namespace Discovery

variable {tree : FileTree} {e : Exclusion} {root dir header : Path} {name d : Text}
  {dirs : List Text} {loc : Location} {depth : Nat}

/-! ## Eligible headers -/

/-- The directory with a name at a path is searched: the name is none of those excluded, and the
path is not that of the output directory. -/
structure Exclusion.Spares (e : Exclusion) (name : Text) (p : Path) : Prop where
  builtin : name ∉ excludedDirs
  extra : name ∉ e.names
  output : p.components ≠ e.out.components

theorem Exclusion.covers_eq_false_iff {p : Path} : e.covers name p = false ↔ e.Spares name p := by
  constructor
  · intro h
    simp only [covers, Path.same, Bool.or_eq_false_iff, List.contains_eq_mem, decide_eq_false_iff_not,
      beq_eq_false_iff_ne] at h
    exact ⟨h.1.1, h.1.2, h.2⟩
  · rintro ⟨hbuiltin, hextra, hout⟩
    simp [covers, Path.same, hbuiltin, hextra, hout]

/-- The way from a root through the directories `dirs` to the entry `name` is that to a header. -/
structure Eligible (tree : FileTree) (e : Exclusion) (root : Path) (dirs : List Text)
    (name : Text) : Prop where
  /-- Each directory is listed in the one before, the first in the root. -/
  way : ∀ front d, front ++ [d] <+: dirs → tree.Lists (root.below front) d .directory
  /-- No directory strictly between the root and the entry is excluded. -/
  spared : ∀ front d, front ++ [d] <+: dirs → e.Spares d (root.below (front ++ [d]))
  /-- The entry is no directory. -/
  file : ∃ contents modified, tree.Lists (root.below dirs) name (.file contents modified)
  ends : (".h" : Text) <:+ name
  written : ¬ Artifact.headerSuffix <:+ name

theorem isHeaderName_iff :
    isHeaderName name = true ↔ (".h" : Text) <:+ name ∧ ¬ Artifact.headerSuffix <:+ name := by
  simp [isHeaderName, ← List.isSuffixOf_iff_suffix]

/-- What holds at every step of a way holds at the first one and at those after it. -/
theorem forall_step_cons_iff {P : List Text → Text → Prop} :
    (∀ front d', front ++ [d'] <+: d :: dirs → P front d') ↔
      P [] d ∧ ∀ front d', front ++ [d'] <+: dirs → P (d :: front) d' := by
  constructor
  · intro h
    refine ⟨h [] d ⟨dirs, rfl⟩, fun front d' hfront => h (d :: front) d' ?_⟩
    exact List.cons_prefix_cons.mpr ⟨rfl, hfront⟩
  · intro h front d' hfront
    cases front with
    | nil =>
        obtain ⟨rfl, -⟩ := List.cons_prefix_cons.mp hfront
        exact h.1
    | cons c front =>
        obtain ⟨rfl, hrest⟩ := List.cons_prefix_cons.mp hfront
        exact h.2 front d' hrest

/-- The first directory on the way, and the way from there on. -/
theorem eligible_cons_iff : Eligible tree e dir (d :: dirs) name ↔
    tree.Lists dir d .directory ∧ e.Spares d (dir.join d) ∧
      Eligible tree e (dir.join d) dirs name := by
  constructor
  · intro h
    obtain ⟨hlists, hway⟩ := forall_step_cons_iff.mp h.way
    obtain ⟨hspares, hspared⟩ := forall_step_cons_iff.mp h.spared
    exact ⟨hlists, hspares, hway, hspared, h.file, h.ends, h.written⟩
  · rintro ⟨hlists, hspares, h⟩
    exact ⟨forall_step_cons_iff.mpr ⟨hlists, h.way⟩, forall_step_cons_iff.mpr ⟨hspares, h.spared⟩,
      h.file, h.ends, h.written⟩

theorem eligible_nil_iff : Eligible tree e dir [] name ↔
    (∃ contents modified, tree.Lists dir name (.file contents modified)) ∧
      isHeaderName name = true := by
  have hnone : ∀ front d', ¬ front ++ [d'] <+: ([] : List Text) := by simp
  rw [isHeaderName_iff]
  constructor
  · intro h
    exact ⟨h.file, h.ends, h.written⟩
  · rintro ⟨hfile, hends, hwritten⟩
    exact ⟨fun front d' h => absurd h (hnone front d'), fun front d' h => absurd h (hnone front d'),
      hfile, hends, hwritten⟩

/-! ## The search finds nothing else -/

theorem exists_eligible_of_mem_collect (h : header ∈ collect tree e depth dir) :
    ∃ dirs name, header = dir.below (dirs ++ [name]) ∧ Eligible tree e dir dirs name := by
  induction depth generalizing dir with
  | zero => cases h
  | succ depth ih =>
      cases hloc : tree.locate dir with
      | error err =>
          rw [collect_of_locate_error hloc] at h
          cases h
      | ok loc =>
          rw [collect_succ hloc, mem_collectAt_iff] at h
          obtain ⟨name, node, hslash, hnode, hpick⟩ := h
          have hlists : tree.Lists dir name node := FileTree.lists_iff.mpr ⟨loc, hloc, hslash, hnode⟩
          cases node with
          | directory =>
              rw [pick] at hpick
              split at hpick
              · cases hpick
              · next hcovers =>
                obtain ⟨dirs, last, rfl, heligible⟩ := ih hpick
                have hspares := Exclusion.covers_eq_false_iff.mp (eq_false_of_ne_true hcovers)
                exact ⟨name :: dirs, last, rfl, eligible_cons_iff.mpr ⟨hlists, hspares, heligible⟩⟩
          | file contents modified =>
              rw [pick] at hpick
              split at hpick
              · next hheader =>
                obtain rfl := List.mem_singleton.mp hpick
                exact ⟨[], name, rfl, eligible_nil_iff.mpr ⟨⟨contents, modified, hlists⟩, hheader⟩⟩
              · cases hpick

/-! ## The search finds all of them -/

theorem Eligible.exists_lists (h : Eligible tree e dir dirs name) :
    ∃ name node, tree.Lists dir name node := by
  cases dirs with
  | nil =>
      obtain ⟨contents, modified, hlists⟩ := h.file
      exact ⟨name, _, hlists⟩
  | cons d dirs => exact ⟨d, _, (eligible_cons_iff.mp h).1⟩

/-- A search that may go down to more levels than there are nodes below finds every eligible
header. -/
theorem Eligible.mem_collect (h : Eligible tree e dir dirs name) (hloc : tree.locate dir = .ok loc)
    (hdepth : tree.countBelow loc < depth) :
    dir.below (dirs ++ [name]) ∈ collect tree e depth dir := by
  obtain ⟨depth, rfl⟩ := Nat.exists_eq_add_one_of_ne_zero (Nat.ne_zero_of_lt hdepth)
  induction dirs generalizing dir loc depth with
  | nil =>
      obtain ⟨⟨contents, modified, hlists⟩, hheader⟩ := eligible_nil_iff.mp h
      obtain ⟨loc', hloc', hslash, hnode⟩ := FileTree.lists_iff.mp hlists
      cases hloc.symm.trans hloc'
      rw [collect_succ hloc]
      refine mem_collectAt_iff.mpr ⟨name, _, hslash, hnode, ?_⟩
      rw [pick, if_pos hheader]
      exact List.mem_singleton.mpr rfl
  | cons d dirs ih =>
      obtain ⟨hlists, hspares, hrest⟩ := eligible_cons_iff.mp h
      obtain ⟨loc', hloc', hslash, hnode⟩ := FileTree.lists_iff.mp hlists
      cases hloc.symm.trans hloc'
      -- the way goes on from the directory, so its path leads there
      obtain ⟨next, node, hnext⟩ := hrest.exists_lists
      obtain ⟨child, hchild, -⟩ := FileTree.lists_iff.mp hnext
      obtain rfl := FileTree.eq_child_of_locate_join hslash hloc hnode hchild
      have hless := FileTree.countBelow_child_lt hnode
      obtain ⟨depth, rfl⟩ := Nat.exists_eq_add_one_of_ne_zero (n := depth) (by omega)
      rw [collect_succ hloc]
      refine mem_collectAt_iff.mpr ⟨d, _, hslash, hnode, ?_⟩
      rw [pick, Exclusion.covers_eq_false_iff.mpr hspares]
      exact ih hrest hchild depth (by omega)

/-! ## Any order of entries -/

/-- The headers in a directory and below, down to `depth` levels, where `order` says in what order
each directory lists its entries. -/
def collectIn (order : Path → List (Text × Node) → List (Text × Node)) (tree : FileTree)
    (e : Exclusion) : (depth : Nat) → (dir : Path) → List Path
  | 0, _ => []
  | depth + 1, dir =>
    match tree.list dir with
    | .error _ => []
    | .ok entries =>
      (order dir entries).flatMap fun x =>
        match x.2 with
        | .directory =>
          if e.covers x.1 (dir.join x.1) then [] else collectIn order tree e depth (dir.join x.1)
        | .file .. => if isHeaderName x.1 then [dir.join x.1] else []

/-- The headers below a directory in the order of paths, where `order` says in what order each
directory lists its entries. -/
def headersIn (order : Path → List (Text × Node) → List (Text × Node)) (tree : FileTree)
    (root : Path) (e : Exclusion) : List Path :=
  (collectIn order tree e (tree.nodes.size + 1) root).mergeSort Path.le

theorem collectIn_perm {order : Path → List (Text × Node) → List (Text × Node)}
    (horder : ∀ dir entries, (order dir entries).Perm entries) :
    (collectIn order tree e depth dir).Perm (collect tree e depth dir) := by
  induction depth generalizing dir with
  | zero => exact .refl _
  | succ depth ih =>
      rw [collectIn, collect]
      cases tree.list dir with
      | error err => exact .refl _
      | ok entries =>
          refine List.Perm.flatMap (horder dir entries) fun x _ => ?_
          obtain ⟨name, node⟩ := x
          cases node with
          | file contents modified => exact .refl _
          | directory =>
              dsimp only
              split
              · exact .refl _
              · exact ih

/-! ## The headers of a tree -/

/-- Nothing is found where the root cannot be followed. -/
theorem headers_eq_nil {err : FileError} (h : tree.locate root = .error err) :
    headers tree root e = [] := by
  rw [headers, collect_of_locate_error h, List.mergeSort_nil]

theorem eq_of_mem_headers_of_le {header' : Path} (h : header ∈ headers tree root e)
    (h' : header' ∈ headers tree root e) (hle : header.le header' = true)
    (hge : header'.le header = true) : header = header' := by
  cases hloc : tree.locate root with
  | error err =>
      rw [headers_eq_nil hloc] at h
      cases h
  | ok loc =>
      exact eq_of_le_of_le (ne_nil_of_locate hloc) hloc (List.mem_mergeSort.mp h)
        (List.mem_mergeSort.mp h') hle hge

theorem mem_headers_iff : header ∈ headers tree root e ↔
    ∃ dirs name, header = root.below (dirs ++ [name]) ∧ Eligible tree e root dirs name := by
  rw [headers, List.mem_mergeSort]
  constructor
  · exact exists_eligible_of_mem_collect
  · rintro ⟨dirs, name, rfl, h⟩
    obtain ⟨next, node, hlists⟩ := h.exists_lists
    obtain ⟨loc, hloc, -⟩ := FileTree.lists_iff.mp hlists
    exact h.mem_collect hloc (Nat.lt_succ_of_le (tree.countBelow_le_size loc))

theorem nodup_headers (tree : FileTree) (root : Path) (e : Exclusion) :
    (headers tree root e).Nodup := by
  cases hloc : tree.locate root with
  | error err =>
      rw [headers_eq_nil hloc]
      exact List.nodup_nil
  | ok loc =>
      exact (List.mergeSort_perm _ _).nodup_iff.mpr (nodup_collect (ne_nil_of_locate hloc) hloc)

/-- The paths found ascend strictly by their components. -/
theorem headers_ascending (tree : FileTree) (root : Path) (e : Exclusion) :
    (headers tree root e).Pairwise fun p q => p.le q = true ∧ p.components ≠ q.components := by
  have hsorted := (Path.pairwise_mergeSort _).and (nodup_headers tree root e)
  refine hsorted.imp_of_mem fun {p q} hp hq h => ⟨h.1, fun heq => h.2 ?_⟩
  apply eq_of_mem_headers_of_le hp hq h.1
  have hle : Path.componentsLe p.components q.components = true := h.1
  rw [Path.le, ← heq]
  rwa [← heq] at hle

theorem headersIn_eq {order : Path → List (Text × Node) → List (Text × Node)}
    (horder : ∀ dir entries, (order dir entries).Perm entries) :
    headersIn order tree root e = headers tree root e := by
  have hperm : (headersIn order tree root e).Perm (headers tree root e) :=
    (List.mergeSort_perm _ _).trans ((collectIn_perm horder).trans (List.mergeSort_perm _ _).symm)
  refine List.Perm.eq_of_pairwise (fun p q hp hq => ?_) (Path.pairwise_mergeSort _)
    (Path.pairwise_mergeSort _) hperm
  exact eq_of_mem_headers_of_le (hperm.mem_iff.mp hp) hq

/-- A search below a root finds exactly the eligible headers, each once and in the order of path
components, whatever the order in which the directories list their entries. -/
theorem headers_exact (tree : FileTree) (root : Path) (e : Exclusion) :
    (headers tree root e).Pairwise (fun p q => p.le q = true ∧ p.components ≠ q.components) ∧
      (∀ p, p ∈ headers tree root e ↔
        ∃ dirs name, p = root.below (dirs ++ [name]) ∧ Eligible tree e root dirs name) ∧
      ∀ order : Path → List (Text × Node) → List (Text × Node),
        (∀ dir entries, (order dir entries).Perm entries) →
          headersIn order tree root e = headers tree root e :=
  ⟨headers_ascending tree root e, fun _ => mem_headers_iff, fun _ horder => headersIn_eq horder⟩

end Discovery

/-! ## A source directory -/

namespace Discovery.Layered

/-- The files of a source directory. -/
def files : List Path :=
  ["/w/Source/A.h", "/w/Source/A.generated.h", "/w/Source/Core/B.h", "/w/Source/Core/Out/C.h",
    "/w/Source/Core/Generated/D.h", "/w/Source/Core/Test/E.h", "/w/Source/Main.cpp",
    "/w/Source/Z.h"]

def tree : FileTree :=
  files.foldl (fun tree p => (tree.addFile p [] .epoch).1) (FileTree.ofWorkingDir "/w")

/-- The output directory is spelled in another way than a search does. -/
def exclusion : Exclusion :=
  ⟨"/w/Source/./Core//Out", ["Test"]⟩

def found : List Path :=
  ["/w/Source/A.h", "/w/Source/Core/B.h", "/w/Source/Z.h"]

theorem collect_tree : collect tree exclusion (tree.nodes.size + 1) "/w/Source" = found := by
  decide +kernel

theorem headers_tree : headers tree "/w/Source" exclusion = found := by
  rw [headers, collect_tree]
  exact List.mergeSort_of_pairwise (by decide +kernel)

/-- The headers are found in the order of their paths, though the directories list their entries
backwards, and one of them is found in a directory below. -/
theorem headers_exact_backwards :
    (∀ (_ : Path) (entries : List (Text × Node)), entries.reverse.Perm entries) ∧
      headersIn (fun _ => List.reverse) tree "/w/Source" exclusion = found ∧
      ∃ dirs name, ("/w/Source/Core/B.h" : Path) = Path.below "/w/Source" (dirs ++ [name]) ∧
        Eligible tree exclusion "/w/Source" dirs name := by
  have hexact := headers_exact tree "/w/Source" exclusion
  have hperm : ∀ (_ : Path) (entries : List (Text × Node)), entries.reverse.Perm entries :=
    fun _ entries => entries.reverse_perm
  have hmem : ("/w/Source/Core/B.h" : Path) ∈ headers tree "/w/Source" exclusion := by
    rw [headers_tree]
    exact List.mem_cons_of_mem _ List.mem_cons_self
  exact ⟨hperm, (hexact.2.2 _ hperm).trans headers_tree, (hexact.2.1 _).mp hmem⟩

end Discovery.Layered

end Registrar
