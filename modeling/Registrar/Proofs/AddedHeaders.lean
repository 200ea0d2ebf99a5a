import Registrar.Proofs.ParallelTrees
import Registrar.Proofs.RepeatedBuild

/-!
# One more header

A tree that gains a file has one header more, if the file is found as one (`FileTree.Gains`). What a
search finds is told by the names on the way (`Discovery.Way`), and the names tell both the path of
a header and its location. So the new header comes somewhere among the old ones
(`Discovery.exists_headers_of_gains`), which are read as before. When it cannot be parsed, a build
knows the same of the others, and has one failure more (`Build.Plan.OneMore`).
-/

namespace Registrar

open FileTree (Bypasses IsEntryName Touches)

/-! ## Names below a directory -/

namespace Path

/-- A part that is added at the end of a path leaves the parts before as they are. -/
theorem parts_of_split_append {p q : Path} {part : Text} (hp : p ≠ [])
    (h : q.splitWhere (· == '/') = p.splitWhere (· == '/') ++ [part]) :
    q.parts = ⟨p.parts.start, p.parts.body ++ [part]⟩ := by
  have hsplit : p.splitWhere (· == '/') ≠ [[]] := by
    intro heq
    apply hp
    rw [← joinWith_splitWhere p, heq]
    rfl
  obtain ⟨first, rest, hcons⟩ :=
    List.exists_cons_of_ne_nil (Text.splitWhere_ne_nil (· == '/') p)
  unfold parts
  rw [h, hcons, List.cons_append]
  rw [hcons] at hsplit
  by_cases hroot : first = []
  · subst hroot
    cases rest with
    | nil => exact absurd rfl hsplit
    | cons second rest => rfl
  · by_cases hdot : first = ['.']
    · subst hdot
      rfl
    · split
      · next heq => exact absurd (List.cons.inj heq).1 hroot
      · next heq => exact absurd (List.cons.inj heq).1 hdot
      · split
        · next heq => exact absurd (List.cons.inj heq).1 hroot
        · next heq => exact absurd (List.cons.inj heq).1 hdot
        · rfl

theorem components_of_split_append {p q : Path} {name : Text} (hp : p ≠ [])
    (hname : IsEntryName name)
    (h : q.splitWhere (· == '/') = p.splitWhere (· == '/') ++ [name]) :
    q.components = p.components ++ [.name name] := by
  unfold components Parts.components
  rw [parts_of_split_append hp h]
  simp [Parts.componentOf, hname.idle, hname.back]

theorem components_join {dir : Path} {name : Text} (hdir : dir ≠ []) (hname : IsEntryName name) :
    (dir.join name).components = dir.components ++ [.name name] := by
  rw [Path.join, FileTree.isAbsolute_of_notMem hname.slash, Bool.false_or,
    if_neg (by simpa using hdir)]
  split
  · next hlast =>
    obtain ⟨way, rfl⟩ := List.getLast?_eq_some_iff.mp hlast
    by_cases hway : way = []
    · subst hway
      have hsplit : Text.splitWhere (· == '/') ('/' :: name) = [[], name] := by
        rw [← List.nil_append ('/' :: name), Text.splitWhere_append_cons (by rfl) [] name,
          FileTree.splitWhere_of_notMem hname.slash]
        rfl
      have hparts : Path.parts ('/' :: name) = ⟨some .root, [name]⟩ := by
        unfold parts
        rw [hsplit]
      show Parts.components (Path.parts ('/' :: name)) = [.root, .name name]
      rw [hparts]
      simp [Parts.components, Parts.componentOf, hname.idle, hname.back]
    · have hslash : Path.components (way ++ ['/']) = Path.components way := by
        unfold components Parts.components
        rw [parts_of_split_append hway (Text.splitWhere_append_cons (by rfl) way [])]
        simp [isIdle]
      rw [hslash, List.append_assoc]
      apply components_of_split_append hway hname
      rw [List.singleton_append, Text.splitWhere_append_cons (by rfl) way name,
        FileTree.splitWhere_of_notMem hname.slash]
  · apply components_of_split_append hdir hname
    rw [Text.splitWhere_append_cons (by rfl) dir name, FileTree.splitWhere_of_notMem hname.slash]

theorem join_ne_nil {dir : Path} {name : Text} (hdir : dir ≠ []) (hname : IsEntryName name) :
    dir.join name ≠ [] := by
  intro hempty
  have hcomponents := components_join hdir hname
  rw [hempty] at hcomponents
  exact absurd hcomponents.symm (List.append_ne_nil_of_right_ne_nil _ (List.cons_ne_nil _ _))

/-- The path of what lies below a directory, by the names on the way. -/
def below (dir : Path) (names : List Text) : Path :=
  names.foldl Path.join dir

theorem below_append (dir : Path) (names rest : List Text) :
    (dir.below names).below rest = dir.below (names ++ rest) :=
  List.foldl_append.symm

theorem components_below {dir : Path} {names : List Text} (hdir : dir ≠ [])
    (hnames : ∀ name ∈ names, IsEntryName name) :
    (dir.below names).components = dir.components ++ names.map .name := by
  induction names generalizing dir with
  | nil => exact (List.append_nil _).symm
  | cons name names ih =>
      obtain ⟨hname, hnames⟩ := List.forall_mem_cons.mp hnames
      rw [below, List.foldl_cons, ← below, ih (join_ne_nil hdir hname) hnames, components_join hdir hname,
        List.append_assoc]
      rfl

/-- Different names lead to different paths. -/
theorem below_injective {dir : Path} {names names' : List Text} (hdir : dir ≠ [])
    (hnames : ∀ name ∈ names, IsEntryName name) (hnames' : ∀ name ∈ names', IsEntryName name)
    (h : (dir.below names).components = (dir.below names').components) : names = names' := by
  rw [components_below hdir hnames, components_below hdir hnames'] at h
  exact (List.map_inj_right fun _ _ hname => Component.name.inj hname).mp
    (List.append_cancel_left h)

end Path

namespace Location

/-- The location of what lies below another, by the names on the way. -/
def below (loc : Location) (names : List Text) : Location :=
  names.foldl Location.child loc

theorem below_append (loc : Location) (names rest : List Text) :
    (loc.below names).below rest = loc.below (names ++ rest) :=
  List.foldl_append.symm

theorem below_eq (loc : Location) (names : List Text) :
    loc.below names = loc ++ names.flatMap ('/' :: ·) := by
  induction names generalizing loc with
  | nil => exact (List.append_nil _).symm
  | cons name names ih =>
      rw [below, List.foldl_cons, ← below, ih, child, List.flatMap_cons, List.append_assoc]

theorem splitWhere_flatMap {name : Text} {names : List Text} (hname : '/' ∉ name)
    (hnames : ∀ n ∈ names, '/' ∉ n) :
    Text.splitWhere (· == '/') (name ++ names.flatMap ('/' :: ·)) = name :: names := by
  induction names generalizing name with
  | nil =>
      rw [List.flatMap_nil, List.append_nil]
      exact FileTree.splitWhere_of_notMem hname
  | cons next names ih =>
      obtain ⟨hnext, hnames⟩ := List.forall_mem_cons.mp hnames
      rw [List.flatMap_cons, List.cons_append, Text.splitWhere_append_cons (by rfl), ih hnext hnames,
        FileTree.splitWhere_of_notMem hname]
      rfl

/-- Different names lead to different locations. -/
theorem below_injective {loc : Location} {names names' : List Text}
    (hnames : ∀ name ∈ names, '/' ∉ name) (hnames' : ∀ name ∈ names', '/' ∉ name)
    (h : loc.below names = loc.below names') : names = names' := by
  rw [below_eq, below_eq] at h
  have hparts := splitWhere_flatMap List.not_mem_nil hnames
  rw [List.append_cancel_left h, splitWhere_flatMap List.not_mem_nil hnames'] at hparts
  exact (List.cons.inj hparts).2.symm

end Location

namespace FileTree

variable {tree grown : FileTree} {p : Path} {loc loc' : Location}

/-- What lies below a location lies in a directory there, or there is nothing. -/
theorem exists_node?_of_below {names : List Text} {node : Node} (hnames : ∀ n ∈ names, '/' ∉ n)
    (h : tree.node? (loc.below names) = some node) : ∃ node, tree.node? loc = some node := by
  induction names generalizing loc with
  | nil => exact ⟨node, h⟩
  | cons name names ih =>
      obtain ⟨hname, hnames⟩ := List.forall_mem_cons.mp hnames
      obtain ⟨child, hchild⟩ := ih hnames h
      have hparent := node?_parent hchild
      rw [Location.parent_child hname] at hparent
      exact ⟨_, hparent⟩

/-- A path is that of one entry. -/
theorem EntryAt.unique (h : tree.EntryAt p loc) (h' : tree.EntryAt p loc') : loc = loc' := by
  obtain ⟨dir, name, above, rfl, hslash, hloc, rfl⟩ := h
  obtain ⟨dir', name', above', hp, hslash', hloc', rfl⟩ := h'
  obtain ⟨parts, hsplit, hwalk⟩ := exists_walk_of_join hslash hloc
  obtain ⟨parts', hsplit', hwalk'⟩ := exists_walk_of_join hslash' hloc'
  rw [← hp, hsplit] at hsplit'
  rw [← hp] at hwalk'
  obtain ⟨rfl, hname⟩ := List.append_inj' hsplit' rfl
  obtain rfl := List.singleton_inj.mp hname
  obtain rfl := Except.ok.inj (hwalk.symm.trans hwalk')
  rfl

/-- A tree has a new file at a location, and perhaps new directories. All else is as it was. -/
structure Gains (tree grown : FileTree) (loc : Location) : Prop where
  workingDir : grown.workingDir = tree.workingDir
  now : grown.now = tree.now
  keeps : ∀ l node, tree.node? l = some node → grown.node? l = some node
  new : tree.node? loc = none
  only : ∀ l contents modified, tree.node? l = none →
    grown.node? l = some (.file contents modified) → l = loc

/-- A file that is written where nothing stood is gained. -/
theorem gains_of_touches (h : Touches (· = p) tree grown) (hnow : grown.now = tree.now)
    (hloc : grown.locate p = .ok loc) (hnew : tree.node? loc = none) : Gains tree grown loc := by
  have hframe : ∀ l, grown.node? l = tree.node? l ∨
      (tree.node? l = none ∧ grown.node? l = some .directory) ∨ l = loc := by
    intro l
    rcases h.frame l with hsame | hmade | ⟨q, rfl, hq⟩
    · exact Or.inl hsame
    · exact Or.inr (Or.inl hmade)
    · exact Or.inr (Or.inr (Except.ok.inj (hq.symm.trans hloc)))
  refine ⟨h.workingDir, hnow, fun l node hl => ?_, hnew, fun l contents modified hnone hl => ?_⟩
  · rcases hframe l with hsame | ⟨hnone, -⟩ | rfl
    · exact hsame.trans hl
    · cases hnone.symm.trans hl
    · cases hnew.symm.trans hl
  · rcases hframe l with hsame | ⟨-, hmade⟩ | heq
    · cases (hsame.trans hnone).symm.trans hl
    · cases hmade.symm.trans hl
    · exact heq

theorem Gains.locate_eq (h : Gains tree grown loc) (hloc : tree.locate p = .ok loc') :
    grown.locate p = .ok loc' :=
  locate_of_keeps h.workingDir (fun l hl => h.keeps l _ hl) hloc

end FileTree

namespace Discovery

variable {tree grown : FileTree} {e : Exclusion} {dir root header : Path} {name : Text}
  {names route : List Text} {loc above : Location} {depth : Nat} {node : Node}

/-! ## Found headers by their names -/

/-- The names on the way from a directory to a header that is found there. -/
structure Way (tree : FileTree) (dir : Path) (loc : Location) (header : Path)
    (names : List Text) : Prop where
  entries : ∀ name ∈ names, IsEntryName name
  path : header = dir.below names
  entry : tree.EntryAt header (loc.below names)
  file : ∃ contents modified, tree.node? (loc.below names) = some (.file contents modified)

theorem Way.cons (h : Way tree (dir.join name) (loc.child name) header names)
    (hname : IsEntryName name) : Way tree dir loc header (name :: names) where
  entries := List.forall_mem_cons.mpr ⟨hname, h.entries⟩
  path := h.path
  entry := h.entry
  file := h.file

/-- What is found at an entry is nothing, the path of the entry, or what is found below it. -/
theorem pick_cases (e : Exclusion) (depth : Nat) (hloc : tree.locate dir = .ok loc)
    (hslash : '/' ∉ name) (hnode : tree.node? (loc.child name) = some node) :
    pick tree e depth dir name node = [] ∨
    ((∃ contents modified, node = .file contents modified) ∧
      pick tree e depth dir name node = [dir.join name]) ∨
    (tree.locate (dir.join name) = .ok (loc.child name) ∧
      pick tree e depth dir name node = collect tree e depth (dir.join name)) := by
  cases node with
  | file contents modified =>
      rw [pick]
      split
      · exact Or.inr (Or.inl ⟨⟨contents, modified, rfl⟩, rfl⟩)
      · exact Or.inl rfl
  | directory =>
      rw [pick]
      split
      · exact Or.inl rfl
      · cases hchild : tree.locate (dir.join name) with
        | error err => exact Or.inl (collect_of_locate_error hchild)
        | ok child =>
            obtain rfl := FileTree.eq_child_of_locate_join hslash hloc hnode hchild
            exact Or.inr (Or.inr ⟨rfl, rfl⟩)

/-- What is found at an entry lies at it or below it. -/
theorem exists_way_of_mem_pick (hloc : tree.locate dir = .ok loc) (hslash : '/' ∉ name)
    (hnode : tree.node? (loc.child name) = some node)
    (hbelow : tree.locate (dir.join name) = .ok (loc.child name) →
      header ∈ collect tree e depth (dir.join name) →
        ∃ names, Way tree (dir.join name) (loc.child name) header names)
    (h : header ∈ pick tree e depth dir name node) :
    ∃ names, Way tree dir loc header (name :: names) := by
  have hname := FileTree.isEntryName_of_node? hslash hnode
  rcases pick_cases e depth hloc hslash hnode with hnil | ⟨⟨contents, modified, rfl⟩, hone⟩ |
    ⟨hchild, hdown⟩
  · rw [hnil] at h
    cases h
  · rw [hone] at h
    obtain rfl := List.mem_singleton.mp h
    exact ⟨[], List.forall_mem_singleton.mpr hname, rfl,
      ⟨dir, name, loc, rfl, hslash, hloc, rfl⟩, contents, modified, hnode⟩
  · rw [hdown] at h
    obtain ⟨names, hway⟩ := hbelow hchild h
    exact ⟨names, hway.cons hname⟩

theorem exists_way_of_mem_collect (hloc : tree.locate dir = .ok loc)
    (h : header ∈ collect tree e depth dir) : ∃ names, Way tree dir loc header names := by
  induction depth generalizing dir loc with
  | zero => cases h
  | succ depth ih =>
      rw [collect_succ hloc, mem_collectAt_iff] at h
      obtain ⟨name, node, hslash, hnode, hpick⟩ := h
      obtain ⟨names, hway⟩ := exists_way_of_mem_pick hloc hslash hnode ih hpick
      exact ⟨_, hway⟩

theorem exists_way_of_mem_entry {x : Text × Node} (hloc : tree.locate dir = .ok loc)
    (hx : x ∈ tree.nodes.entries)
    (h : header ∈ (FileTree.childName? loc x.1).elim [] fun name => pick tree e depth dir name x.2) :
    ∃ name names, x.1 = loc.child name ∧ Way tree dir loc header (name :: names) := by
  obtain ⟨key, node⟩ := x
  cases hname : FileTree.childName? loc key with
  | none =>
      rw [hname] at h
      cases h
  | some name =>
      rw [hname] at h
      obtain ⟨rfl, hslash⟩ := FileTree.childName?_eq_some_iff.mp hname
      have hnode := Dict.mem_entries_iff.mp hx
      rw [← FileTree.node?_child] at hnode
      obtain ⟨names, hway⟩ := exists_way_of_mem_pick hloc hslash hnode
        (fun hchild => exists_way_of_mem_collect hchild) h
      exact ⟨name, names, rfl, hway⟩

/-- Names are told from the components of a path. -/
theorem Way.names_eq {header' : Path} {names' : List Text} (hdir : dir ≠ [])
    (h : Way tree dir loc header names) (h' : Way tree dir loc header' names')
    (hsame : header.components = header'.components) : names = names' := by
  rw [h.path, h'.path] at hsame
  exact Path.below_injective hdir h.entries h'.entries hsame

/-- A header is found once. -/
theorem nodup_collect (hdir : dir ≠ []) (hloc : tree.locate dir = .ok loc) :
    (collect tree e depth dir).Nodup := by
  induction depth generalizing dir loc with
  | zero => exact List.nodup_nil
  | succ depth ih =>
      rw [collect_succ hloc]
      refine List.pairwise_flatMap.mpr ⟨fun x hx => ?_, ?_⟩
      · cases hname : FileTree.childName? loc x.1 with
        | none => exact List.Pairwise.nil
        | some name =>
            obtain ⟨hkey, hslash⟩ := FileTree.childName?_eq_some_iff.mp hname
            have hnode := Dict.mem_entries_iff.mp hx
            rw [hkey, ← FileTree.node?_child] at hnode
            rw [Option.elim_some]
            rcases pick_cases e depth hloc hslash hnode with hnil | ⟨-, hone⟩ | ⟨hchild, hdown⟩
            · rw [hnil]
              exact List.Pairwise.nil
            · rw [hone]
              exact List.pairwise_singleton _ _
            · rw [hdown]
              exact ih (Path.join_ne_nil hdir (FileTree.isEntryName_of_node? hslash hnode)) hchild
      · refine tree.nodes.ascending.imp_of_mem ?_
        intro x y hx hy hlt p hp q hq hpq
        obtain ⟨name, names, hkey, hway⟩ := exists_way_of_mem_entry hloc hx hp
        obtain ⟨name', names', hkey', hway'⟩ := exists_way_of_mem_entry hloc hy hq
        have hnames := hway.names_eq hdir hway' (congrArg Path.components hpq)
        rw [hkey, hkey', (List.cons.inj hnames).1] at hlt
        exact List.lt_irrefl _ hlt

/-! ## One more header -/

/-- What is found where nothing was before is the new file. -/
theorem eq_of_way_of_none {rest : List Text} (hgains : tree.Gains grown (above.below route))
    (hroute : ∀ n ∈ route, IsEntryName n) (hnames : ∀ n ∈ names, IsEntryName n)
    (hnone : tree.node? ((above.below names).child name) = none)
    (hway : Way grown (root.below names) (above.below names) header (name :: rest)) :
    header = root.below route := by
  obtain ⟨contents, modified, hfile⟩ := hway.file
  have hrest := (List.forall_mem_cons.mp hway.entries).2
  have hnew : tree.node? ((above.below names).below (name :: rest)) = none := by
    cases hthere : tree.node? ((above.below names).below (name :: rest)) with
    | none => rfl
    | some old =>
        obtain ⟨child, hchild⟩ :=
          FileTree.exists_node?_of_below (fun n hn => (hrest n hn).slash) hthere
        cases hnone.symm.trans hchild
  have hplace := hgains.only _ _ _ hnew hfile
  rw [Location.below_append] at hplace
  have hslash : ∀ n ∈ names ++ name :: rest, '/' ∉ n :=
    List.forall_mem_append.mpr
      ⟨fun n hn => (hnames n hn).slash, fun n hn => (hway.entries n hn).slash⟩
  rw [hway.path, Path.below_append,
    Location.below_injective hslash (fun n hn => (hroute n hn).slash) hplace]

/-- At an old entry the same is found, but for the new file, if that holds below the entry. -/
theorem filter_pick (hgains : tree.Gains grown (above.below route)) (hroot : root ≠ [])
    (hroute : ∀ n ∈ route, IsEntryName n) (hnames : ∀ n ∈ names, IsEntryName n)
    (hloc : tree.locate (root.below names) = .ok (above.below names)) (hslash : '/' ∉ name)
    (hnode : tree.node? ((above.below names).child name) = some node)
    (hbelow : (∀ n ∈ names ++ [name], IsEntryName n) →
      tree.locate (root.below (names ++ [name])) = .ok (above.below (names ++ [name])) →
        (collect grown e depth (root.below (names ++ [name]))).filter (· ≠ root.below route) =
          collect tree e depth (root.below (names ++ [name]))) :
    (pick grown e depth (root.below names) name node).filter (· ≠ root.below route) =
      pick tree e depth (root.below names) name node := by
  have hlonger : ∀ n ∈ names ++ [name], IsEntryName n :=
    List.forall_mem_append.mpr
      ⟨hnames, List.forall_mem_singleton.mpr (FileTree.isEntryName_of_node? hslash hnode)⟩
  have hplace : (above.below names).child name = above.below (names ++ [name]) :=
    Location.below_append above names [name]
  have hpath : (root.below names).join name = root.below (names ++ [name]) :=
    Path.below_append root names [name]
  cases node with
  | file contents modified =>
      -- an old file is not where the new one is
      have hother : root.below (names ++ [name]) ≠ root.below route := by
        intro heq
        have hsame := Path.below_injective hroot hlonger hroute (congrArg Path.components heq)
        rw [hplace, hsame, hgains.new] at hnode
        cases hnode
      rw [pick, pick, hpath]
      split
      · simp [hother]
      · rfl
  | directory =>
      have hchild : grown.locate ((root.below names).join name) =
          tree.locate ((root.below names).join name) := by
        rw [FileTree.locate_join_of_node? hslash hloc hnode,
          FileTree.locate_join_of_node? hslash (hgains.locate_eq hloc) (hgains.keeps _ _ hnode)]
      rw [pick, pick]
      split
      · rfl
      · cases hdown : tree.locate ((root.below names).join name) with
        | error err =>
            rw [collect_of_locate_error hdown, collect_of_locate_error (hchild.trans hdown)]
            rfl
        | ok child =>
            obtain rfl := FileTree.eq_child_of_locate_join hslash hloc hnode hdown
            rw [hpath] at hdown ⊢
            exact hbelow hlonger (hdown.trans (congrArg Except.ok hplace))

/-- Searches of a tree and of one with a new file differ in the path of the file. -/
theorem filter_collect (hgains : tree.Gains grown (above.below route)) (hroot : root ≠ [])
    (hroute : ∀ n ∈ route, IsEntryName n) (hnames : ∀ n ∈ names, IsEntryName n)
    (hloc : tree.locate (root.below names) = .ok (above.below names)) :
    (collect grown e depth (root.below names)).filter (· ≠ root.below route) =
      collect tree e depth (root.below names) := by
  induction depth generalizing names with
  | zero => rfl
  | succ depth ih =>
      have hgrown := hgains.locate_eq hloc
      rw [collect_succ hloc, collect_succ hgrown]
      apply filter_collectAt_congr
      intro name hslash
      cases hnode : tree.node? ((above.below names).child name) with
      | some node =>
          rw [hgains.keeps _ _ hnode]
          exact filter_pick hgains hroot hroute hnames hloc hslash hnode ih
      | none =>
          rw [Option.elim_none, List.filter_eq_nil_iff]
          cases hnew : grown.node? ((above.below names).child name) with
          | none => exact fun header hmem => absurd hmem List.not_mem_nil
          | some node =>
              intro header hmem
              obtain ⟨rest, hway⟩ := exists_way_of_mem_pick hgrown hslash hnew
                (fun hchild => exists_way_of_mem_collect hchild) hmem
              simp [eq_of_way_of_none hgains hroute hnames hnode hway]

/-- Headers that are found come in one order only. -/
theorem eq_of_le_of_le {header' : Path} (hdir : dir ≠ []) (hloc : tree.locate dir = .ok loc)
    (h : header ∈ collect tree e depth dir) (h' : header' ∈ collect tree e depth dir)
    (hle : header.le header' = true) (hge : header'.le header = true) : header = header' := by
  obtain ⟨names, hway⟩ := exists_way_of_mem_collect hloc h
  obtain ⟨names', hway'⟩ := exists_way_of_mem_collect hloc h'
  obtain rfl := hway.names_eq hdir hway' (Path.componentsLe_antisymm hle hge)
  exact hway.path.trans hway'.path.symm

theorem filter_ne_of_nodup {before after : List Path}
    (h : (before ++ header :: after).Nodup) :
    (before ++ header :: after).filter (· ≠ header) = before ++ after := by
  obtain ⟨-, hcons, happart⟩ := List.pairwise_append.mp h
  have hbefore : ∀ q ∈ before, q ≠ header := fun q hq => happart q hq header List.mem_cons_self
  have hafter : ∀ q ∈ after, q ≠ header :=
    fun q hq => Ne.symm ((List.pairwise_cons.mp hcons).1 q hq)
  rw [List.filter_append, List.filter_cons_of_neg (by simp),
    List.filter_eq_self.mpr fun q hq => decide_eq_true (hbefore q hq),
    List.filter_eq_self.mpr fun q hq => decide_eq_true (hafter q hq)]

theorem ne_nil_of_locate (hloc : tree.locate root = .ok loc) : root ≠ [] := by
  intro hroot
  subst hroot
  cases hloc

/-- **A new header is found among the others.** -/
theorem exists_headers_of_gains (hgains : tree.Gains grown loc) (hroot : Bypasses tree grown root)
    (hentry : grown.EntryAt header loc) (hmem : header ∈ headers grown root e) :
    ∃ before after, headers grown root e = before ++ header :: after ∧
      headers tree root e = before ++ after := by
  have hsame := (FileTree.Beside.refl hgains.workingDir hgains.now).locate_eq hroot
  have hfound := List.mem_mergeSort.mp hmem
  cases hgrown : grown.locate root with
  | error err =>
      rw [collect_of_locate_error hgrown] at hfound
      cases hfound
  | ok above =>
      have htree := hsame.symm.trans hgrown
      have hne := ne_nil_of_locate hgrown
      obtain ⟨route, hway⟩ := exists_way_of_mem_collect hgrown hfound
      obtain rfl := hentry.unique hway.entry
      obtain rfl := hway.path
      -- both searches go down as far as there are nodes in either tree
      generalize hdepth : max grown.nodes.size tree.nodes.size + 1 = depth
      have hdeep : collect grown e (grown.nodes.size + 1) root = collect grown e depth root := by
        have hcount := grown.countBelow_le_size above
        exact collect_depth hgrown (by omega) (by omega)
      have hdeep' : collect tree e (tree.nodes.size + 1) root = collect tree e depth root := by
        have hcount := tree.countBelow_le_size above
        exact collect_depth htree (by omega) (by omega)
      have hothers : (collect grown e depth root).filter (· ≠ root.below route) =
          collect tree e depth root :=
        filter_collect hgains hne hway.entries (fun _ hn => absurd hn List.not_mem_nil) htree
      unfold headers
      rw [hdeep, hdeep']
      rw [hdeep] at hfound
      have hperm := List.mergeSort_perm (collect grown e depth root) Path.le
      have hnodup := hperm.nodup_iff.mpr (nodup_collect hne hgrown)
      have hsorted := Path.pairwise_mergeSort (collect grown e depth root)
      obtain ⟨before, after, hsplit⟩ := List.append_of_mem (hperm.mem_iff.mpr hfound)
      refine ⟨before, after, hsplit, ?_⟩
      rw [hsplit] at hperm hnodup hsorted
      have hrest : (before ++ after).Perm (collect tree e depth root) := by
        rw [← hothers, ← filter_ne_of_nodup hnodup]
        exact hperm.filter _
      have hsub : ∀ q ∈ collect tree e depth root, q ∈ collect grown e depth root := by
        rw [← hothers]
        exact fun q hq => (List.mem_filter.mp hq).1
      have hperm' := List.mergeSort_perm (collect tree e depth root) Path.le
      refine List.Perm.eq_of_pairwise (fun q q' hq hq' hle hge => ?_)
        (Path.pairwise_mergeSort _) (hsorted.sublist ?_) (hperm'.trans hrest.symm)
      · exact eq_of_le_of_le hne hgrown (hsub q (hperm'.mem_iff.mp hq))
          (hsub q' (hrest.mem_iff.mp hq')) hle hge
      · exact List.Sublist.append (List.Sublist.refl _) (List.sublist_cons_self _ _)

/-- The old headers are read as before. -/
theorem readFile_of_gains (hgains : tree.Gains grown loc) (hmem : header ∈ headers tree root e) :
    grown.readFile header = tree.readFile header := by
  obtain ⟨dir, name, above, contents, modified, rfl, hslash, -, hloc, hnode⟩ :=
    exists_of_mem_collect (List.mem_mergeSort.mp hmem)
  exact FileTree.readFile_join_eq hslash hloc (hgains.locate_eq hloc) hnode
    ((hgains.keeps _ _ hnode).trans hnode.symm)

end Discovery

/-! ## One more failure -/

/-- A header that cannot be parsed adds a failure to a batch, and nothing else. -/
theorem Batch.read_of_failed {tree grown : FileTree} {table : MacroTable} {header : Path}
    {err : BuildError} {before after : List Path}
    (hfails : ParsedHeader.read grown table header = .error err)
    (hsame : ∀ q ∈ before ++ after,
      ParsedHeader.read grown table q = ParsedHeader.read tree table q) :
    (read grown table (before ++ header :: after)).parsed =
        (read tree table (before ++ after)).parsed ∧
      (read grown table (before ++ header :: after)).failures.length =
        (read tree table (before ++ after)).failures.length + 1 := by
  obtain ⟨hbefore, hafter⟩ := List.forall_mem_append.mp hsame
  have hresults : (before ++ header :: after).map (ParsedHeader.read grown table) =
      before.map (ParsedHeader.read tree table) ++
        .error err :: after.map (ParsedHeader.read tree table) := by
    rw [List.map_append, List.map_cons, hfails, List.map_congr_left hbefore,
      List.map_congr_left hafter]
  unfold read ofResults
  rw [hresults, List.map_append]
  refine ⟨?_, ?_⟩
  · simp only [List.filterMap_append, List.filterMap_cons]
  · simp only [List.filterMap_append, List.filterMap_cons, List.length_append, List.length_cons]
    omega

namespace Build

/-- A plan knows of one header more than another, and nothing but that it cannot be parsed. -/
structure Plan.OneMore (p p' : Plan) (header : Path) : Prop where
  layout : p'.layout = p.layout
  unparsed : p'.Unparsed header
  headers : ∃ before after, p'.headers = before ++ header :: after ∧ p.headers = before ++ after
  parsed : p'.batch.parsed = p.batch.parsed
  failures : p'.batch.failures.length = p.batch.failures.length + 1
  graph : p'.graph = p.graph

namespace Project

variable {pr : Project} {tree grown : FileTree} {loc : Location} {header : Path}

/-- Settings are read as before, and their directory is where it was. -/
theorem settings_of_gains (hgains : tree.Gains grown loc)
    (hsettings : readSettings tree pr.settingsFile = .ok pr.settings)
    (hdir : settingsDir tree pr.settingsFile = pr.dir) :
    readSettings grown pr.settingsFile = .ok pr.settings ∧
      settingsDir grown pr.settingsFile = pr.dir := by
  obtain ⟨⟨contents, modified⟩, hread⟩ := exists_readFile_of_readSettings hsettings
  have hread' : grown.readFile pr.settingsFile = .ok (contents, modified) := by
    obtain ⟨l, hloc, hfile⟩ := FileTree.readFile_eq_ok_iff.mp hread
    exact FileTree.readFile_eq_ok_iff.mpr ⟨l, hgains.locate_eq hloc, hgains.keeps l _ hfile⟩
  have hmoved := settingsDir_of_keeps hgains.workingDir (fun l hl => hgains.keeps l _ hl) hread
  exact ⟨(readSettings_of_readFile (hread'.trans hread.symm)).trans hsettings, hmoved.trans hdir⟩

/-- **A header that cannot be parsed tells a build nothing.** -/
theorem plan_oneMore (hgains : tree.Gains grown loc)
    (hroot : Bypasses tree grown pr.layout.sourceRoot)
    (hmacros : Bypasses tree grown pr.layout.macroHeader) (hentry : grown.EntryAt header loc)
    (hfound : header ∈ (pr.plan grown).headers) {err : BuildError}
    (hfails : ParsedHeader.read grown (readMacros grown pr.layout.macroHeader).1 header =
      .error err) : (pr.plan tree).OneMore (pr.plan grown) header := by
  have htable : readMacros grown pr.layout.macroHeader = readMacros tree pr.layout.macroHeader := by
    unfold readMacros
    rw [(FileTree.Beside.refl hgains.workingDir hgains.now).readText_eq hmacros]
  have hfound : header ∈ Discovery.headers grown pr.layout.sourceRoot
      ⟨pr.layout.generatedOut, pr.settings.excludeDirs⟩ := hfound
  obtain ⟨before, after, hmore, hold⟩ :=
    Discovery.exists_headers_of_gains hgains hroot hentry hfound
  have hsame : ∀ q ∈ before ++ after, ∀ table,
      ParsedHeader.read grown table q = ParsedHeader.read tree table q := by
    intro q hq table
    rw [← hold] at hq
    unfold ParsedHeader.read
    rw [Discovery.readFile_of_gains hgains hq]
  obtain ⟨hparsed, hfailures⟩ := Batch.read_of_failed hfails fun q hq => hsame q hq _
  have hplan : ∀ t, pr.plan t = planOf t pr.layout (Discovery.headers t pr.layout.sourceRoot
      ⟨pr.layout.generatedOut, pr.settings.excludeDirs⟩) := fun _ => rfl
  rw [hplan, hplan, hmore, hold]
  rw [htable] at hparsed hfailures
  unfold planOf
  rw [htable]
  refine ⟨rfl, ⟨List.mem_append_right _ List.mem_cons_self, ?_⟩, ⟨before, after, rfl, rfl⟩,
    hparsed, hfailures, ?_⟩
  · intro h hmem hpath
    obtain ⟨q, -, hread⟩ := Batch.mem_parsed_iff.mp hmem
    obtain rfl : q = header := (ParsedHeader.of_read hread).1.symm.trans hpath
    rw [htable] at hfails
    cases hfails.symm.trans hread
  · exact congrArg (fun parsed => (graphOf parsed).1) hparsed

end Project

end Build

end Registrar
