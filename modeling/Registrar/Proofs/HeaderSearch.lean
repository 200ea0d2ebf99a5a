import Registrar.Proofs.TreeFrame
import Registrar.Proofs.BuildFrame

/-!
# Headers that are found again

The search for headers goes from directory to directory, and what it finds in a directory hangs on
the entries of the directory alone. It is as deep as it need be: a directory has fewer entries below
it than the one above (`FileTree.countBelow_child_lt`), so a search down to as many levels as there
are nodes leaves nothing out (`Discovery.collect_depth`).

When other files change and directories are made, the same headers are found in the same order
(`Discovery.headers_of_touches`), and they are read as before (`Discovery.readFile_of_touches`).
-/

namespace Registrar

open FileTree (IsEntryName Touches)

/-! ## Entries by their keys -/

namespace Dict

variable {α β γ : Type}

/-- The lists that the entries of a dictionary yield, but for empty ones. -/
def yields (d : Dict α) (f : Text → α → List γ) : Dict (List γ) where
  entries := d.entries.filterMap fun x =>
    if (f x.1 x.2).isEmpty then none else some (x.1, f x.1 x.2)
  ascending := by
    refine d.ascending.filterMap _ ?_
    intro a b hlt a' ha' b' hb'
    split at ha'
    · cases ha'
    · split at hb'
      · cases hb'
      · cases ha'
        cases hb'
        exact hlt

theorem get?_yields_eq_some_iff {d : Dict α} {f : Text → α → List γ} {key : Text} {list : List γ} :
    (d.yields f).get? key = some list ↔
      list.isEmpty = false ∧ (d.get? key).elim [] (f key) = list := by
  rw [← mem_entries_iff]
  refine List.mem_filterMap.trans ⟨?_, ?_⟩
  · rintro ⟨⟨k, value⟩, hmem, hsome⟩
    split at hsome
    · cases hsome
    · next hfull =>
      cases hsome
      rw [mem_entries_iff.mp hmem]
      exact ⟨eq_false_of_ne_true hfull, rfl⟩
  · rintro ⟨hfull, rfl⟩
    cases hvalue : d.get? key with
    | none =>
        rw [hvalue] at hfull
        cases hfull
    | some value =>
        rw [hvalue] at hfull
        exact ⟨(key, value), mem_entries_iff.mpr hvalue, if_neg (ne_true_of_eq_false hfull)⟩

theorem flatMap_yields (d : Dict α) (f : Text → α → List γ) :
    (d.yields f).entries.flatMap Prod.snd = d.entries.flatMap fun x => f x.1 x.2 := by
  unfold yields
  dsimp only
  generalize d.entries = entries
  induction entries with
  | nil => rfl
  | cons x rest ih =>
      rw [List.flatMap_cons, List.filterMap_cons, ← ih]
      split
      · next hnone =>
        split at hnone
        · next hempty =>
          rw [List.isEmpty_iff.mp hempty]
          rfl
        · cases hnone
      · next y hsome =>
        split at hsome
        · cases hsome
        · cases hsome
          rfl

/-- Dictionaries that yield the same for every key yield the same all together. -/
theorem flatMap_entries_congr {d : Dict α} {d' : Dict β} (f : Text → α → List γ)
    (f' : Text → β → List γ)
    (h : ∀ key, (d.get? key).elim [] (f key) = (d'.get? key).elim [] (f' key)) :
    d.entries.flatMap (fun x => f x.1 x.2) = d'.entries.flatMap (fun x => f' x.1 x.2) := by
  have hyields : d.yields f = d'.yields f' := by
    apply ext_get?
    intro key
    apply Option.ext
    intro list
    rw [get?_yields_eq_some_iff, get?_yields_eq_some_iff, h]
  rw [← flatMap_yields d, ← flatMap_yields d', hyields]

end Dict

namespace FileTree

variable {tree before after : FileTree} {dir : Path} {name : Text} {above loc : Location}

/-! ## The path of an entry -/

/-- Where the path of an entry leads, if it can be followed at all, by the location of its
directory. -/
def entryAt (above : Location) (p : Path) (name : Text) : Except FileError Location :=
  match flaw? p with
  | some e => .error e
  | none => if maxNameBytes < name.byteLength then .error .nameTooLong else .ok (above.child name)

theorem eq_child_of_entryAt {p : Path} (h : entryAt above p name = .ok loc) :
    loc = above.child name := by
  unfold entryAt at h
  split at h
  · cases h
  · split at h
    · cases h
    · exact (Except.ok.inj h).symm

theorem walk_name (hname : IsEntryName name) (hdir : tree.node? above = some .directory) :
    tree.walk [name] above =
      if maxNameBytes < name.byteLength then .error .nameTooLong else .ok (above.child name) := by
  rw [walk, hdir]
  dsimp only
  rw [if_neg (by rw [hname.idle]; exact Bool.false_ne_true), if_neg hname.back]
  rfl

/-- An empty part at the end of a walk leads nowhere else. -/
theorem walk_of_append_nil {parts : List Text} {start : Location}
    (h : tree.walk (parts ++ [[]]) start = .ok loc) : tree.walk parts start = .ok loc := by
  obtain ⟨mid, hmid, hstep⟩ := exists_walk_of_append h
  rw [walk, node?_of_walk hstep] at hstep
  cases hstep
  exact hmid

/-- The parts of an entry's path, but for the name, lead to the directory. -/
theorem exists_walk_of_join (hslash : '/' ∉ name) (hloc : tree.locate dir = .ok above) :
    ∃ parts, (dir.join name).splitWhere (· == '/') = parts ++ [name] ∧
      tree.walk parts (if (dir.join name).isAbsolute then [] else tree.workingDir) = .ok above := by
  rw [locate] at hloc
  split at hloc
  · cases hloc
  · next hflaw =>
    have hne : dir ≠ [] := by
      rintro rfl
      cases hflaw
    have hjoin : dir.join name =
        if dir.getLast? = some '/' then dir ++ name else dir ++ '/' :: name := by
      rw [Path.join, isAbsolute_of_notMem hslash, Bool.false_or, if_neg (by simpa using hne)]
    have habsolute : (dir.join name).isAbsolute = dir.isAbsolute := by
      obtain ⟨c, rest, hcons⟩ := List.exists_cons_of_ne_nil hne
      rw [hjoin, hcons]
      split <;> rfl
    rw [habsolute, hjoin]
    split
    · next hlast =>
      obtain ⟨way, hway⟩ := List.getLast?_eq_some_iff.mp hlast
      refine ⟨Text.splitWhere (· == '/') way, ?_, walk_of_append_nil ?_⟩
      · rw [hway, List.append_assoc, List.singleton_append,
          Text.splitWhere_append_cons (by rfl) way name, splitWhere_of_notMem hslash]
      · have hsplit : dir.splitWhere (· == '/') = Text.splitWhere (· == '/') way ++ [[]] := by
          rw [hway]
          exact Text.splitWhere_append_cons (by rfl) way []
        rw [← hsplit]
        exact hloc
    · refine ⟨dir.splitWhere (· == '/'), ?_, hloc⟩
      rw [Text.splitWhere_append_cons (by rfl) dir name, splitWhere_of_notMem hslash]

/-- The path of an entry leads from the directory to the entry. -/
theorem locate_join (hname : IsEntryName name) (hloc : tree.locate dir = .ok above)
    (hdir : tree.node? above = some .directory) :
    tree.locate (dir.join name) = entryAt above (dir.join name) name := by
  obtain ⟨parts, hparts, hwalk⟩ := exists_walk_of_join hname.slash hloc
  unfold locate entryAt
  rw [hparts, walk_append, hwalk, ← walk_name hname hdir]
  rfl

/-! ## Entries of a directory -/

theorem childName?_eq_some_iff : childName? above loc = some name ↔
    loc = above.child name ∧ '/' ∉ name := by
  have hafter : ∀ rest, loc.after? (above ++ ['/']) = some rest ↔ loc = above.child rest := by
    intro rest
    rw [Text.after?_eq_some_iff, List.append_assoc, List.singleton_append]
    rfl
  unfold childName?
  constructor
  · intro h
    split at h
    · next rest hrest =>
      split at h
      · cases h
      · next hslash =>
        cases h
        exact ⟨(hafter _).mp hrest, hslash⟩
    · cases h
  · rintro ⟨hchild, hslash⟩
    rw [(hafter name).mpr hchild]
    exact if_neg hslash

theorem node?_child (tree : FileTree) (above : Location) (name : Text) :
    tree.node? (above.child name) = tree.nodes.get? (above.child name) :=
  if_neg (Location.child_ne_nil above name)

/-- What stands in a directory has the name of an entry. -/
theorem isEntryName_of_node? (hslash : '/' ∉ name) {node : Node}
    (h : tree.node? (above.child name) = some node) : IsEntryName name := by
  rw [node?_child] at h
  obtain ⟨dir, name', hchild, hname', -⟩ := tree.housed _ node h
  rw [eq_of_child_eq hslash hname'.slash hchild]
  exact hname'

/-- The path of what stands in a directory leads there, if it can be followed. -/
theorem locate_join_of_node? (hslash : '/' ∉ name) (hloc : tree.locate dir = .ok above)
    {node : Node} (hnode : tree.node? (above.child name) = some node) :
    tree.locate (dir.join name) = entryAt above (dir.join name) name := by
  have hparent := node?_parent hnode
  rw [Location.parent_child hslash] at hparent
  exact locate_join (isEntryName_of_node? hslash hnode) hloc hparent

theorem eq_child_of_locate_join (hslash : '/' ∉ name) (hloc : tree.locate dir = .ok above)
    {node : Node} (hnode : tree.node? (above.child name) = some node)
    (h : tree.locate (dir.join name) = .ok loc) : loc = above.child name := by
  rw [locate_join_of_node? hslash hloc hnode] at h
  exact eq_child_of_entryAt h

/-- An entry that stands in a directory of two trees is read in both or in neither. -/
theorem readFile_join_eq (hslash : '/' ∉ name) (hloc : before.locate dir = .ok above)
    (hloc' : after.locate dir = .ok above) {node : Node}
    (hnode : before.node? (above.child name) = some node)
    (hsame : after.node? (above.child name) = before.node? (above.child name)) :
    after.readFile (dir.join name) = before.readFile (dir.join name) := by
  have hlocate : after.locate (dir.join name) = before.locate (dir.join name) := by
    rw [locate_join_of_node? hslash hloc hnode,
      locate_join_of_node? hslash hloc' (hsame.trans hnode)]
  unfold readFile find
  rw [hlocate]
  cases hchild : before.locate (dir.join name) with
  | error err => rfl
  | ok child =>
      obtain rfl := eq_child_of_locate_join hslash hloc hnode hchild
      dsimp only [bind, Except.bind]
      rw [hsame]

/-- The number of nodes below a location. -/
def countBelow (tree : FileTree) (loc : Location) : Nat :=
  (tree.nodes.entries.filter fun x => isBelow loc x.1).length

theorem countBelow_le_size (tree : FileTree) (loc : Location) :
    tree.countBelow loc ≤ tree.nodes.size :=
  List.length_filter_le _ _

theorem isBelow_of_isBelow_child (h : isBelow (above.child name) loc = true) :
    isBelow above loc = true := by
  obtain ⟨rest, hrest⟩ := Option.isSome_iff_exists.mp h
  have hloc : loc = above ++ ['/'] ++ (name ++ '/' :: rest) := by
    rw [Text.after?_eq_some_iff.mp hrest, Location.child]
    simp
  unfold isBelow
  rw [Text.after?_eq_some_iff.mpr hloc]
  rfl

theorem not_isBelow_self (loc : Location) : ¬ isBelow loc loc = true := by
  intro h
  obtain ⟨rest, hrest⟩ := Option.isSome_iff_exists.mp h
  have hlength := congrArg List.length (Text.after?_eq_some_iff.mp hrest)
  simp at hlength

/-- An entry of a directory has fewer nodes below it than the directory: it is none of them. -/
theorem countBelow_child_lt {node : Node} (h : tree.node? (above.child name) = some node) :
    tree.countBelow (above.child name) < tree.countBelow above := by
  have hfilter : (tree.nodes.entries.filter fun x => isBelow (above.child name) x.1) =
      (tree.nodes.entries.filter fun x => isBelow above x.1).filter
        fun x => isBelow (above.child name) x.1 := by
    rw [List.filter_filter]
    apply List.filter_congr
    intro x _
    cases hbelow : isBelow (above.child name) x.1 with
    | false => rfl
    | true => rw [isBelow_of_isBelow_child hbelow]; rfl
  unfold countBelow
  rw [hfilter, List.length_filter_lt_length_iff_exists]
  rw [node?_child] at h
  refine ⟨(above.child name, node), List.mem_filter.mpr ⟨Dict.mem_entries_iff.mpr h, ?_⟩,
    not_isBelow_self _⟩
  exact isBelow_child name (Or.inl rfl)

/-- A path is that of the entry at a location: it ends in the name of the entry, and the rest leads
to the directory. -/
def EntryAt (tree : FileTree) (p : Path) (loc : Location) : Prop :=
  ∃ dir name above, p = Path.join dir name ∧ '/' ∉ name ∧ tree.locate dir = .ok above ∧
    loc = above.child name

/-- A path that cannot be followed after a change could not be followed before. -/
theorem Touches.exists_locate_error {touched : Path → Prop} (h : Touches touched before after)
    {p : Path} {err : FileError} (hp : after.locate p = .error err) :
    ∃ err', before.locate p = .error err' := by
  cases hbefore : before.locate p with
  | error err' => exact ⟨err', rfl⟩
  | ok loc =>
      rw [h.locate_eq hbefore] at hp
      cases hp

end FileTree

namespace Discovery

variable {tree tree' before after : FileTree} {e : Exclusion} {dir header : Path} {name : Text}
  {loc : Location} {depth depth' : Nat} {touched : Path → Prop} {found : List Path}

/-! ## What is found in a directory -/

/-- What a search finds at an entry of a directory. -/
def pick (tree : FileTree) (e : Exclusion) (depth : Nat) (dir : Path) (name : Text) :
    Node → List Path
  | .directory =>
    if e.covers name (dir.join name) then [] else collect tree e depth (dir.join name)
  | .file .. => if isHeaderName name then [dir.join name] else []

/-- What a search finds in the directory at a location, to which the path `dir` leads. -/
def collectAt (tree : FileTree) (e : Exclusion) (depth : Nat) (dir : Path) (loc : Location) :
    List Path :=
  tree.nodes.entries.flatMap fun x =>
    (FileTree.childName? loc x.1).elim [] fun name => pick tree e depth dir name x.2

theorem mem_collectAt_iff : header ∈ collectAt tree e depth dir loc ↔
    ∃ name node, '/' ∉ name ∧ tree.node? (loc.child name) = some node ∧
      header ∈ pick tree e depth dir name node := by
  refine List.mem_flatMap.trans ⟨?_, ?_⟩
  · rintro ⟨⟨key, node⟩, hmem, hpick⟩
    cases hname : FileTree.childName? loc key with
    | none =>
        rw [hname] at hpick
        cases hpick
    | some name =>
        rw [hname] at hpick
        obtain ⟨rfl, hslash⟩ := FileTree.childName?_eq_some_iff.mp hname
        rw [Dict.mem_entries_iff, ← FileTree.node?_child] at hmem
        exact ⟨name, node, hslash, hmem, hpick⟩
  · rintro ⟨name, node, hslash, hnode, hpick⟩
    rw [FileTree.node?_child] at hnode
    refine ⟨(loc.child name, node), Dict.mem_entries_iff.mpr hnode, ?_⟩
    rw [FileTree.childName?_eq_some_iff.mpr ⟨rfl, hslash⟩]
    exact hpick

/-- Nothing stands below a place where there is no directory. -/
theorem collectAt_eq_nil (h : tree.node? loc ≠ some .directory) :
    collectAt tree e depth dir loc = [] := by
  refine List.eq_nil_iff_forall_not_mem.mpr fun header hmem => ?_
  obtain ⟨name, node, hslash, hnode, -⟩ := mem_collectAt_iff.mp hmem
  have hparent := FileTree.node?_parent hnode
  rw [Location.parent_child hslash] at hparent
  exact h hparent

/-- Two searches find the same in a directory, but for what is left out of the first, when they do
so at every entry. -/
theorem filter_collectAt_congr {keep : Path → Bool}
    (h : ∀ name, '/' ∉ name →
      ((tree.node? (loc.child name)).elim [] (pick tree e depth dir name)).filter keep =
        (tree'.node? (loc.child name)).elim [] (pick tree' e depth' dir name)) :
    (collectAt tree e depth dir loc).filter keep = collectAt tree' e depth' dir loc := by
  unfold collectAt
  rw [List.filter_flatMap]
  apply Dict.flatMap_entries_congr
    (fun key node => ((FileTree.childName? loc key).elim [] fun name =>
      pick tree e depth dir name node).filter keep)
    (fun key node => (FileTree.childName? loc key).elim [] fun name =>
      pick tree' e depth' dir name node)
  intro key
  cases hname : FileTree.childName? loc key with
  | none => cases tree.nodes.get? key <;> cases tree'.nodes.get? key <;> rfl
  | some name =>
      obtain ⟨rfl, hslash⟩ := FileTree.childName?_eq_some_iff.mp hname
      have hboth := h name hslash
      rw [FileTree.node?_child, FileTree.node?_child] at hboth
      refine Eq.trans ?_ hboth
      cases tree.nodes.get? (loc.child name) <;> rfl

/-- Two searches find the same in a directory when they do so at every entry. -/
theorem collectAt_congr
    (h : ∀ name, '/' ∉ name → (tree.node? (loc.child name)).elim [] (pick tree e depth dir name) =
      (tree'.node? (loc.child name)).elim [] (pick tree' e depth' dir name)) :
    collectAt tree e depth dir loc = collectAt tree' e depth' dir loc := by
  have hall : ∀ found : List Path, found.filter (fun _ => true) = found :=
    fun _ => List.filter_eq_self.mpr fun _ _ => rfl
  rw [← hall (collectAt tree e depth dir loc)]
  apply filter_collectAt_congr
  intro name hslash
  rw [hall, h name hslash]

/-- Where there is no directory, nothing is found. -/
theorem collect_eq_nil (h : ∀ loc, tree.locate dir = .ok loc → tree.node? loc ≠ some .directory) :
    collect tree e depth dir = [] := by
  cases depth with
  | zero => rfl
  | succ depth =>
      rw [collect]
      cases hlist : tree.list dir with
      | error err => rfl
      | ok entries =>
          obtain ⟨loc, hloc, hentries⟩ := Header.bind_eq_ok_iff.mp hlist
          split at hentries
          · cases hentries
          · cases hentries
          · next hdir => exact absurd hdir (h loc hloc)

theorem collect_of_locate_error {err : FileError} (h : tree.locate dir = .error err) :
    collect tree e depth dir = [] := by
  apply collect_eq_nil
  intro l hl
  rw [h] at hl
  cases hl

theorem collect_succ (hloc : tree.locate dir = .ok loc) :
    collect tree e (depth + 1) dir = collectAt tree e depth dir loc := by
  by_cases hdir : tree.node? loc = some .directory
  · have hlist : tree.list dir = .ok (tree.nodes.entries.filterMap fun x =>
        (FileTree.childName? loc x.1).map (·, x.2)) := by
      refine Header.bind_eq_ok_iff.mpr ⟨loc, hloc, ?_⟩
      rw [hdir]
    rw [collect, hlist]
    unfold collectAt
    dsimp only
    generalize tree.nodes.entries = entries
    induction entries with
    | nil => rfl
    | cons x rest ih =>
        rw [List.flatMap_cons, List.filterMap_cons, ← ih]
        cases FileTree.childName? loc x.1 with
        | none => rfl
        | some name =>
            rw [Option.map_some]
            dsimp only
            rw [List.flatMap_cons]
            rfl
  · rw [collectAt_eq_nil hdir]
    apply collect_eq_nil
    intro l hl
    cases hloc.symm.trans hl
    exact hdir

/-! ## Deep enough -/

/-- A search that may go down to more levels than there are nodes below finds all there is. -/
theorem collect_depth (hloc : tree.locate dir = .ok loc) (hdepth : tree.countBelow loc < depth)
    (hdepth' : tree.countBelow loc < depth') :
    collect tree e depth dir = collect tree e depth' dir := by
  induction depth generalizing depth' dir loc with
  | zero => exact absurd hdepth (Nat.not_lt_zero _)
  | succ depth ih =>
      obtain ⟨depth', rfl⟩ := Nat.exists_eq_add_one_of_ne_zero (Nat.ne_zero_of_lt hdepth')
      rw [collect_succ hloc, collect_succ hloc]
      apply collectAt_congr
      intro name hslash
      cases hnode : tree.node? (loc.child name) with
      | none => rfl
      | some node =>
          cases node with
          | file contents modified => rfl
          | directory =>
              have hless := FileTree.countBelow_child_lt hnode
              have hbelow : collect tree e depth (dir.join name) =
                  collect tree e depth' (dir.join name) := by
                cases hchild : tree.locate (dir.join name) with
                | error err =>
                    rw [collect_of_locate_error hchild, collect_of_locate_error hchild]
                | ok child =>
                    obtain rfl := FileTree.eq_child_of_locate_join hslash hloc hnode hchild
                    exact ih hchild (by omega) (by omega)
              rw [Option.elim_some, Option.elim_some, pick, pick, hbelow]

/-! ## What the found headers are -/

/-- A header that is found is a file in a directory that its path leads to, with the name of a
header. -/
theorem exists_of_mem_collect (h : header ∈ collect tree e depth dir) :
    ∃ above name loc contents modified, header = Path.join above name ∧ '/' ∉ name ∧
      isHeaderName name = true ∧ tree.locate above = .ok loc ∧
      tree.node? (loc.child name) = some (.file contents modified) := by
  induction depth generalizing dir with
  | zero => cases h
  | succ depth ih =>
      cases hloc : tree.locate dir with
      | error err =>
          rw [collect_of_locate_error hloc] at h
          cases h
      | ok loc =>
          rw [collect_succ hloc, mem_collectAt_iff] at h
          obtain ⟨name, node, hslash, hnode, hpick⟩ := h
          cases node with
          | directory =>
              rw [pick] at hpick
              split at hpick
              · cases hpick
              · exact ih hpick
          | file contents modified =>
              rw [pick] at hpick
              split at hpick
              · next hheader =>
                exact ⟨dir, name, loc, contents, modified, List.mem_singleton.mp hpick, hslash,
                  hheader, hloc, hnode⟩
              · cases hpick

/-! ## After a change -/

/-- A change touches none of the given headers: a place that it touched has no name of a header, or
a file is there that is none of them. -/
def Quiet (touched : Path → Prop) (after : FileTree) (found : List Path) : Prop :=
  ∀ q above name, touched q → after.locate q = .ok (Location.child above name) → '/' ∉ name →
    isHeaderName name = true →
      (∃ contents modified, after.node? (above.child name) = some (.file contents modified)) ∧
        ∀ header ∈ found, ¬ after.EntryAt header (above.child name)

theorem Quiet.mono {fewer : List Path} (h : Quiet touched after found) (hsub : fewer ⊆ found) :
    Quiet touched after fewer := by
  intro q above name hq hloc hslash hheader
  obtain ⟨hfile, hothers⟩ := h q above name hq hloc hslash hheader
  exact ⟨hfile, fun header hmem => hothers header (hsub hmem)⟩

/-- At a place with the name of a header that is searched, nothing changes but that a directory may
be made. -/
theorem Quiet.node?_eq (htouches : Touches touched before after)
    (hquiet : Quiet touched after (collectAt after e depth dir loc))
    (hloc : after.locate dir = .ok loc) (hslash : '/' ∉ name) (hheader : isHeaderName name = true) :
    after.node? (loc.child name) = before.node? (loc.child name) ∨
      before.node? (loc.child name) = none ∧ after.node? (loc.child name) = some .directory := by
  rcases htouches.frame (loc.child name) with hsame | hmade | ⟨q, hq, hqloc⟩
  · exact Or.inl hsame
  · exact Or.inr hmade
  · obtain ⟨⟨contents, modified, hfile⟩, hothers⟩ := hquiet q loc name hq hqloc hslash hheader
    have hfound : dir.join name ∈ collectAt after e depth dir loc := by
      refine mem_collectAt_iff.mpr ⟨name, _, hslash, hfile, ?_⟩
      rw [pick, if_pos hheader]
      exact List.mem_singleton.mpr rfl
    exact absurd ⟨dir, name, loc, rfl, hslash, hloc, rfl⟩ (hothers _ hfound)

/-- Where there is no directory and the name is none of a header, nothing is found. -/
theorem elim_pick_of_plain {node : Option Node} (hplain : isHeaderName name = false)
    (hnode : node ≠ some .directory) : node.elim [] (pick tree e depth dir name) = [] := by
  cases node with
  | none => rfl
  | some node =>
      cases node with
      | directory => exact absurd rfl hnode
      | file contents modified =>
          rw [Option.elim_some, pick, hplain]
          rfl

/-- At every entry the same is found, if that holds below the directories. -/
theorem pick_of_touches (htouches : Touches touched before after)
    (hquiet : Quiet touched after (collectAt after e depth dir loc))
    (hloc : after.locate dir = .ok loc) (hslash : '/' ∉ name)
    (hbelow : after.node? (loc.child name) = some .directory →
      e.covers name (dir.join name) = false →
        collect after e depth (dir.join name) = collect before e depth (dir.join name)) :
    (after.node? (loc.child name)).elim [] (pick after e depth dir name) =
      (before.node? (loc.child name)).elim [] (pick before e depth dir name) := by
  have hdirectory : after.node? (loc.child name) = some .directory →
      pick after e depth dir name .directory = pick before e depth dir name .directory := by
    intro hafter
    rw [pick, pick]
    split
    · rfl
    · next hsearched => exact hbelow hafter (eq_false_of_ne_true hsearched)
  -- a directory that was not there before had nothing below it
  have hnew : after.node? (loc.child name) = some .directory →
      before.node? (loc.child name) ≠ some .directory →
        pick before e depth dir name .directory = [] := by
    intro hafter hbefore
    rw [pick]
    split
    · rfl
    · apply collect_eq_nil
      intro l hl
      rw [FileTree.eq_child_of_locate_join hslash hloc hafter (htouches.locate_eq hl)]
      exact hbefore
  cases hheader : isHeaderName name with
  | true =>
      rcases hquiet.node?_eq htouches hloc hslash hheader with hsame | ⟨hnone, hmade⟩
      · rw [hsame]
        cases hbefore : before.node? (loc.child name) with
        | none => rfl
        | some node =>
            cases node with
            | file contents modified => rfl
            | directory => exact hdirectory (hsame.trans hbefore)
      · rw [hmade, hnone, Option.elim_some, hdirectory hmade, hnew hmade]
        · rfl
        · rw [hnone]
          exact fun heq => by cases heq
  | false =>
      by_cases hbefore : before.node? (loc.child name) = some .directory
      · rw [hbefore, htouches.keeps _ hbefore]
        exact hdirectory (htouches.keeps _ hbefore)
      · rw [elim_pick_of_plain hheader hbefore]
        by_cases hafter : after.node? (loc.child name) = some .directory
        · rw [hafter, Option.elim_some, hdirectory hafter, hnew hafter hbefore]
        · exact elim_pick_of_plain hheader hafter

/-- A search finds the same after a change that touches none of its headers. A path that leads to an
old directory must have led there before. -/
theorem collect_of_touches (htouches : Touches touched before after)
    (hway : ∀ loc, after.locate dir = .ok loc → before.node? loc = some .directory →
      before.locate dir = .ok loc)
    (hquiet : Quiet touched after (collect after e depth dir)) :
    collect after e depth dir = collect before e depth dir := by
  induction depth generalizing dir with
  | zero => rfl
  | succ depth ih =>
      cases hloc : after.locate dir with
      | error err =>
          obtain ⟨err', hbefore⟩ := htouches.exists_locate_error hloc
          rw [collect_of_locate_error hloc, collect_of_locate_error hbefore]
      | ok loc =>
          rw [collect_succ hloc] at hquiet
          have hentries : collectAt after e depth dir loc = collectAt before e depth dir loc := by
            apply collectAt_congr
            intro name hslash
            apply pick_of_touches htouches hquiet hloc hslash
            intro hnode hsearched
            apply ih
            · intro l hl hdir
              obtain rfl := FileTree.eq_child_of_locate_join hslash hloc hnode hl
              have hparent := FileTree.node?_parent hdir
              rw [Location.parent_child hslash] at hparent
              rw [FileTree.locate_join_of_node? hslash (hway loc hloc hparent) hdir,
                ← FileTree.locate_join_of_node? hslash hloc hnode, hl]
            · refine hquiet.mono fun header hmem => ?_
              refine mem_collectAt_iff.mpr ⟨name, _, hslash, hnode, ?_⟩
              rw [pick, hsearched]
              exact hmem
          rw [collect_succ hloc, hentries]
          by_cases hdir : before.node? loc = some .directory
          · rw [collect_succ (hway loc hloc hdir)]
          · rw [collectAt_eq_nil hdir, collect_eq_nil]
            intro l hl
            cases hloc.symm.trans (htouches.locate_eq hl)
            exact hdir

/-- **The same headers are found after a change that touches none of them.** -/
theorem headers_of_touches {root : Path} (htouches : Touches touched before after)
    (hway : ∀ loc, after.locate root = .ok loc → before.node? loc = some .directory →
      before.locate root = .ok loc)
    (hquiet : Quiet touched after (headers after root e)) :
    headers after root e = headers before root e := by
  unfold headers at hquiet ⊢
  cases hloc : after.locate root with
  | error err =>
      obtain ⟨err', hbefore⟩ := htouches.exists_locate_error hloc
      rw [collect_of_locate_error hloc, collect_of_locate_error hbefore]
  | ok loc =>
      generalize hdepth : max after.nodes.size before.nodes.size + 1 = depth
      have hafter : collect after e (after.nodes.size + 1) root = collect after e depth root := by
        have hcount := after.countBelow_le_size loc
        exact collect_depth hloc (by omega) (by omega)
      have hbefore : collect before e (before.nodes.size + 1) root =
          collect before e depth root := by
        by_cases hdir : before.node? loc = some .directory
        · have hcount := before.countBelow_le_size loc
          exact collect_depth (hway loc hloc hdir) (by omega) (by omega)
        · have hnowhere : ∀ l, before.locate root = .ok l → before.node? l ≠ some .directory := by
            intro l hl
            cases hloc.symm.trans (htouches.locate_eq hl)
            exact hdir
          rw [collect_eq_nil hnowhere, collect_eq_nil hnowhere]
      rw [hafter] at hquiet ⊢
      rw [hbefore, collect_of_touches htouches hway]
      exact hquiet.mono fun header hmem => List.mem_mergeSort.mpr hmem

/-- A header that is found is read as before. -/
theorem readFile_of_touches (htouches : Touches touched before after)
    (hquiet : Quiet touched after found) (hmem : header ∈ collect before e depth dir)
    (hfound : header ∈ found) : after.readFile header = before.readFile header := by
  obtain ⟨above, name, loc, contents, modified, rfl, hslash, hheader, hloc, hnode⟩ :=
    exists_of_mem_collect hmem
  have hloc' := htouches.locate_eq hloc
  have hsame : after.node? (loc.child name) = before.node? (loc.child name) := by
    rcases htouches.frame (loc.child name) with hsame | ⟨hnone, -⟩ | ⟨q, hq, hqloc⟩
    · exact hsame
    · rw [hnone] at hnode
      cases hnode
    · exact absurd ⟨above, name, loc, rfl, hslash, hloc', rfl⟩
        ((hquiet q loc name hq hqloc hslash hheader).2 _ hfound)
  exact FileTree.readFile_join_eq hslash hloc hloc' hnode hsame

/-- No artifact has the name of a header. -/
theorem isHeaderName_of_suffix (name : Text) {suffix : Text} (h : suffix ∈ Artifact.suffixes) :
    isHeaderName (name ++ suffix) = false := by
  have hsuffix : ∀ s ∈ Artifact.suffixes, s = Artifact.headerSuffix ∨
      s.getLast?.isSome ∧ s.getLast? ≠ some 'h' := by decide
  unfold isHeaderName
  rcases hsuffix suffix h with rfl | ⟨hsome, hlast⟩
  · have hgenerated : Artifact.headerSuffix.isSuffixOf (name ++ Artifact.headerSuffix) = true :=
      List.isSuffixOf_iff_suffix.mpr (List.suffix_append _ _)
    rw [hgenerated, Bool.not_true, Bool.and_false]
  · have hother : (".h" : Text).isSuffixOf (name ++ suffix) = false := by
      rw [← Bool.not_eq_true, List.isSuffixOf_iff_suffix]
      rintro ⟨front, hfront⟩
      have hend := congrArg List.getLast? hfront
      rw [List.getLast?_append, List.getLast?_append, Option.or_of_isSome hsome] at hend
      exact hlast hend.symm
    rw [hother, Bool.false_and]

end Discovery

end Registrar
