import Registrar.FileTree.Change
import Registrar.Proofs.Words

/-!
# What a change leaves alone

A change of a file tree is told by the paths that it writes or removes (`FileTree.Touches`). It may
make directories as well, but never takes one away, so a path that could be followed before the
change leads to the same location after it (`locate_of_keeps`). A file is read as before when its
path leads nowhere that a touched path leads (`Touches.readFile_eq`).

That two paths lead to different locations in every tree (`Apart`) follows from their last names.
-/

namespace Registrar.FileTree

variable {tree before after last : FileTree}

/-! ## Following a path -/

/-- A step is taken from a directory only. -/
theorem node?_of_walk {part : Text} {parts : List Text} {start loc : Location}
    (h : tree.walk (part :: parts) start = .ok loc) : tree.node? start = some .directory := by
  rw [walk] at h
  split at h
  · cases h
  · cases h
  · next hnode => exact hnode

/-- Where a part of a path leads from a location. -/
def onward (loc : Location) (part : Text) : Location :=
  if Path.isIdle part then loc
  else if part = ['.', '.'] then loc.parent
  else loc.child part

/-- A step out of a directory succeeds unless the name is too long. -/
theorem walk_of_directory {loc : Location} (h : tree.node? loc = some .directory) (part : Text)
    (parts : List Text) : tree.walk (part :: parts) loc =
      if maxNameBytes < part.byteLength then .error .nameTooLong
      else tree.walk parts (onward loc part) := by
  rw [walk, h]
  dsimp only
  unfold onward
  by_cases hidle : Path.isIdle part = true
  · have hshort : ¬ maxNameBytes < part.byteLength := by
      rcases Bool.or_eq_true_iff.mp hidle with hempty | hdot
      · rw [eq_of_beq hempty]
        decide
      · rw [eq_of_beq hdot]
        decide
    rw [if_pos hidle, if_neg hshort, if_pos hidle]
  · rw [if_neg hidle, if_neg hidle]
    by_cases hback : part = ['.', '.']
    · subst hback
      rfl
    · rw [if_neg hback, if_neg hback]

/-- A walk that has its directories in one tree has them in a tree that keeps them. -/
theorem walk_of_keeps
    (hkeeps : ∀ loc, before.node? loc = some .directory → after.node? loc = some .directory)
    {parts : List Text} {start loc : Location} (h : before.walk parts start = .ok loc) :
    after.walk parts start = .ok loc := by
  induction parts generalizing start with
  | nil => exact h
  | cons part parts ih =>
      have hnode := node?_of_walk h
      rw [walk_of_directory hnode] at h
      rw [walk_of_directory (hkeeps start hnode)]
      split at h
      · cases h
      · next hshort =>
        rw [if_neg hshort]
        exact ih h

/-- A path leads to the same location in a tree that keeps the directories. -/
theorem locate_of_keeps (hdir : after.workingDir = before.workingDir)
    (hkeeps : ∀ loc, before.node? loc = some .directory → after.node? loc = some .directory)
    {p : Path} {loc : Location} (h : before.locate p = .ok loc) : after.locate p = .ok loc := by
  rw [locate] at h ⊢
  cases hflaw : flaw? p with
  | some e =>
      rw [hflaw] at h
      cases h
  | none =>
      rw [hflaw] at h
      rw [hdir]
      exact walk_of_keeps hkeeps h

/-- A walk is its first step and then the others. -/
theorem walk_cons (tree : FileTree) (part : Text) (parts : List Text) (start : Location) :
    tree.walk (part :: parts) start = (tree.walk [part] start).bind (tree.walk parts) := by
  rw [walk, walk]
  cases tree.node? start with
  | none => rfl
  | some node =>
      cases node with
      | file contents modified => rfl
      | directory =>
          dsimp only
          split
          · rfl
          · split
            · rfl
            · split
              · rfl
              · rfl

/-- A walk goes on from where its first steps lead. -/
theorem walk_append (tree : FileTree) (parts rest : List Text) (start : Location) :
    tree.walk (parts ++ rest) start = (tree.walk parts start).bind (tree.walk rest) := by
  induction parts generalizing start with
  | nil => rfl
  | cons part parts ih =>
      rw [List.cons_append, walk_cons, walk_cons tree part parts]
      cases tree.walk [part] start with
      | error e => rfl
      | ok mid => exact ih mid

/-- A walk comes to its last steps by the steps before. -/
theorem exists_walk_of_append {parts rest : List Text} {start loc : Location}
    (h : tree.walk (parts ++ rest) start = .ok loc) :
    ∃ mid, tree.walk parts start = .ok mid ∧ tree.walk rest mid = .ok loc := by
  rw [walk_append] at h
  cases hmid : tree.walk parts start with
  | error e =>
      rw [hmid] at h
      cases h
  | ok mid =>
      rw [hmid] at h
      exact ⟨mid, rfl, h⟩

/-- The contents of a file are those that stand where its path leads. -/
theorem readFile_eq_ok_iff {p : Path} {contents : Bytes} {modified : Moment} :
    tree.readFile p = .ok (contents, modified) ↔
      ∃ loc, tree.locate p = .ok loc ∧ tree.node? loc = some (.file contents modified) := by
  cases hloc : tree.locate p with
  | error e => simp [readFile, find, hloc, bind, Except.bind]
  | ok loc =>
      cases hnode : tree.node? loc with
      | none => simp [readFile, find, hloc, hnode, bind, Except.bind]
      | some node =>
          cases node with
          | directory => simp [readFile, find, hloc, hnode, bind, Except.bind]
          | file c m => simp [readFile, find, hloc, hnode, bind, Except.bind]

/-! ## Last names -/

theorem splitWhere_of_notMem {name : Text} (h : '/' ∉ name) :
    name.splitWhere (· == '/') = [name] := by
  induction name with
  | nil => rfl
  | cons c rest ih =>
      have hc : (c == '/') = false := by
        rw [beq_eq_false_iff_ne]
        exact fun heq => h (heq ▸ List.mem_cons_self)
      have hrest := ih fun hmem => h (List.mem_cons_of_mem _ hmem)
      simp [Text.splitWhere, hc, hrest]

theorem isAbsolute_of_notMem {name : Text} (h : '/' ∉ name) : Path.isAbsolute name = false := by
  cases name with
  | nil => rfl
  | cons c rest =>
      have hc : c ≠ '/' := fun heq => h (heq ▸ List.mem_cons_self)
      simp [Path.isAbsolute, hc]

/-- The last part of a path that was put together is the name that was added. -/
theorem exists_splitWhere_join (dir : Path) {name : Text} (h : '/' ∉ name) :
    ∃ parts, (dir.join name).splitWhere (· == '/') = parts ++ [name] := by
  rw [Path.join, isAbsolute_of_notMem h, Bool.false_or]
  split
  · exact ⟨[], splitWhere_of_notMem h⟩
  · split
    · next hlast =>
      obtain ⟨way, hway⟩ := List.getLast?_eq_some_iff.mp hlast
      refine ⟨Text.splitWhere (· == '/') way, ?_⟩
      rw [hway, List.append_assoc, List.singleton_append,
        Text.splitWhere_append_cons (by rfl) way name, splitWhere_of_notMem h]
    · refine ⟨dir.splitWhere (· == '/'), ?_⟩
      rw [Text.splitWhere_append_cons (by rfl) dir name, splitWhere_of_notMem h]

/-- A path that ends in a name leads to an entry of that name. -/
theorem exists_child_of_locate_join {dir : Path} {name : Text} (hname : IsEntryName name)
    {loc : Location} (h : tree.locate (dir.join name) = .ok loc) :
    ∃ above : Location, loc = above.child name := by
  obtain ⟨parts, hparts⟩ := exists_splitWhere_join dir hname.slash
  rw [locate] at h
  split at h
  · cases h
  · rw [hparts] at h
    obtain ⟨above, -, hstep⟩ := exists_walk_of_append h
    have hnode := node?_of_walk hstep
    rw [walk, hnode] at hstep
    dsimp only at hstep
    rw [if_neg (by rw [hname.idle]; exact Bool.false_ne_true), if_neg hname.back] at hstep
    split at hstep
    · cases hstep
    · simp only [walk, Except.ok.injEq] at hstep
      exact ⟨above, hstep.symm⟩

/-- An entry has one name. -/
theorem eq_of_child_eq {above above' : Location} {name name' : Text} (hname : '/' ∉ name)
    (hname' : '/' ∉ name') (h : above.child name = above'.child name') : name = name' := by
  have hparent : (above.child name).parent = above := Location.parent_child hname
  have hparent' : (above'.child name').parent = above' := Location.parent_child hname'
  have habove : above = above' := by
    rw [← hparent, h, hparent']
  rw [habove] at h
  have hcons := List.append_cancel_left h
  exact (List.cons.inj hcons).2

/-- Two paths lead to different locations in every tree. -/
def Apart (p q : Path) : Prop :=
  ∀ (tree : FileTree) (loc : Location), tree.locate p = .ok loc → tree.locate q ≠ .ok loc

theorem Apart.symm {p q : Path} (h : Apart p q) : Apart q p :=
  fun tree loc hq hp => h tree loc hp hq

/-- Paths with different last names lead to different locations. -/
theorem apart_join {dir dir' : Path} {name name' : Text} (hname : IsEntryName name)
    (hname' : IsEntryName name') (hne : name ≠ name') : Apart (dir.join name) (dir'.join name') := by
  intro tree loc h h'
  obtain ⟨above, habove⟩ := exists_child_of_locate_join hname h
  obtain ⟨above', habove'⟩ := exists_child_of_locate_join hname' h'
  exact hne (eq_of_child_eq hname.slash hname'.slash (habove.symm.trans habove'))

/-! ## Changes -/

/-- A change that writes or removes files at the paths of a set only, and makes directories where
nothing stood. The touched locations are told by the tree after the change, where more paths can be
followed. -/
structure Touches (touched : Path → Prop) (before after : FileTree) : Prop where
  workingDir : after.workingDir = before.workingDir
  keeps : ∀ loc, before.node? loc = some .directory → after.node? loc = some .directory
  frame : ∀ loc, after.node? loc = before.node? loc ∨
    (before.node? loc = none ∧ after.node? loc = some .directory) ∨
    ∃ p, touched p ∧ after.locate p = .ok loc

namespace Touches

variable {touched wider : Path → Prop}

theorem locate_eq (h : Touches touched before after) {p : Path} {loc : Location}
    (hloc : before.locate p = .ok loc) : after.locate p = .ok loc :=
  locate_of_keeps h.workingDir h.keeps hloc

theorem refl (touched : Path → Prop) (tree : FileTree) : Touches touched tree tree where
  workingDir := rfl
  keeps _ hloc := hloc
  frame _ := Or.inl rfl

theorem mono (h : Touches touched before after) (hwider : ∀ p, touched p → wider p) :
    Touches wider before after where
  workingDir := h.workingDir
  keeps := h.keeps
  frame loc := by
    rcases h.frame loc with hsame | hmade | ⟨p, hp, hloc⟩
    · exact Or.inl hsame
    · exact Or.inr (Or.inl hmade)
    · exact Or.inr (Or.inr ⟨p, hwider p hp, hloc⟩)

theorem trans (h : Touches touched before after) (h' : Touches touched after last) :
    Touches touched before last where
  workingDir := h'.workingDir.trans h.workingDir
  keeps loc hloc := h'.keeps loc (h.keeps loc hloc)
  frame loc := by
    rcases h.frame loc with hsame | ⟨hnone, hmade⟩ | ⟨p, hp, hloc⟩
    · rw [← hsame]
      exact h'.frame loc
    · -- a directory that the first change made is still there after the second
      exact Or.inr (Or.inl ⟨hnone, h'.keeps loc hmade⟩)
    · exact Or.inr (Or.inr ⟨p, hp, h'.locate_eq hloc⟩)

/-- A file that no touched path leads to is read as before. -/
theorem readFile_eq (h : Touches touched before after) {p : Path}
    (hapart : ∀ q, touched q → Apart p q) {read : Bytes × Moment}
    (hread : before.readFile p = .ok read) : after.readFile p = .ok read := by
  obtain ⟨contents, modified⟩ := read
  obtain ⟨loc, hloc, hnode⟩ := readFile_eq_ok_iff.mp hread
  have hloc' := h.locate_eq hloc
  refine readFile_eq_ok_iff.mpr ⟨loc, hloc', ?_⟩
  rcases h.frame loc with hsame | ⟨hnone, -⟩ | ⟨q, hq, hqloc⟩
  · rw [hsame, hnode]
  · rw [hnone] at hnode
    cases hnode
  · exact absurd hqloc (hapart q hq after loc hloc')

/-- Where nothing stood, there is no file after a change that touches other paths. -/
theorem readFile_ne_ok (h : Touches touched before after) {p : Path} {loc : Location}
    (hapart : ∀ q, touched q → Apart p q) (hloc : before.locate p = .ok loc)
    (hnone : before.node? loc = none) (read : Bytes × Moment) : after.readFile p ≠ .ok read := by
  intro hread
  obtain ⟨contents, modified⟩ := read
  obtain ⟨loc', hloc', hnode⟩ := readFile_eq_ok_iff.mp hread
  have hafter := h.locate_eq hloc
  have heq : loc' = loc := Except.ok.inj (hloc'.symm.trans hafter)
  rw [heq] at hnode
  rcases h.frame loc with hsame | ⟨-, hmade⟩ | ⟨q, hq, hqloc⟩
  · rw [hsame, hnone] at hnode
    cases hnode
  · rw [hmade] at hnode
    cases hnode
  · exact hapart q hq after loc hafter hqloc

end Touches

/-! ## What the operations touch -/

theorem node?_put {loc : Location} {node : Node} (place : Housed tree.nodes loc)
    (free : tree.node? loc ≠ some .directory) (l : Location) :
    (tree.put loc node place free).node? l = if loc = l then some node else tree.node? l := by
  have hroot : loc ≠ [] := by
    obtain ⟨dir, name, hchild, -⟩ := place
    rw [hchild]
    exact Location.child_ne_nil dir name
  by_cases hl : l = []
  · have hne : loc ≠ l := fun heq => hroot (heq.trans hl)
    rw [if_neg hne, node?, node?, if_pos hl, if_pos hl]
  · rw [node?, if_neg hl, node?, if_neg hl]
    exact Dict.get?_insert tree.nodes loc node l

theorem node?_erase {loc : Location} (free : tree.node? loc ≠ some .directory) (l : Location) :
    (tree.erase loc free).node? l = if loc = l then none else tree.node? l := by
  by_cases hl : l = []
  · have hne : loc ≠ l := by
      intro heq
      apply free
      rw [heq, hl]
      rfl
    rw [if_neg hne, node?, node?, if_pos hl, if_pos hl]
  · rw [node?, if_neg hl, node?, if_neg hl]
    show (tree.nodes.filter fun l' _ => decide (l' ≠ loc)).get? l = _
    rw [Dict.get?_filter]
    by_cases heq : loc = l
    · simp [heq]
    · simp [heq, Ne.symm heq]

/-- A change of what stands where a path leads, a directory apart, touches that path. -/
theorem touches_of_node? {p : Path} {loc : Location} (hdir : after.workingDir = before.workingDir)
    (hloc : before.locate p = .ok loc) (free : before.node? loc ≠ some .directory)
    (hother : ∀ l, loc ≠ l → after.node? l = before.node? l) : Touches (· = p) before after := by
  have hkeeps : ∀ l, before.node? l = some .directory → after.node? l = some .directory := by
    intro l hl
    rw [hother l fun heq => free (heq ▸ hl)]
    exact hl
  refine ⟨hdir, hkeeps, fun l => ?_⟩
  by_cases heq : loc = l
  · exact Or.inr (Or.inr ⟨p, rfl, heq ▸ locate_of_keeps hdir hkeeps hloc⟩)
  · exact Or.inl (hother l heq)

/-- A file is written at the end of a path, where there is no directory. -/
theorem writeFile_eq_ok {p : Path} {contents : Bytes}
    (h : before.writeFile p contents = .ok after) :
    p.getLast? ≠ some '/' ∧ ∃ loc, ∃ hloc : before.locate p = .ok loc,
      ∃ free : before.node? loc ≠ some .directory,
        after = before.put loc (.file contents before.now) (housed_of_locate hloc free) free := by
  unfold writeFile at h
  split at h
  · cases h
  · next hslash =>
    split at h
    · cases h
    · next loc hloc =>
      split at h
      · cases h
      · next free =>
        cases h
        exact ⟨hslash, loc, hloc, free, rfl⟩

theorem writeFile_of_free {p : Path} {loc : Location} (hslash : p.getLast? ≠ some '/')
    (hloc : tree.locate p = .ok loc) (free : tree.node? loc ≠ some .directory) (contents : Bytes) :
    tree.writeFile p contents =
      .ok (tree.put loc (.file contents tree.now) (housed_of_locate hloc free) free) := by
  unfold writeFile
  rw [if_neg hslash]
  split
  · next hl => cases hloc.symm.trans hl
  · next hl =>
    cases hloc.symm.trans hl
    rw [dif_neg free]

/-- A written file can be read, and nothing else changes. -/
theorem touches_writeFile {p : Path} {contents : Bytes}
    (h : before.writeFile p contents = .ok after) :
    Touches (· = p) before after ∧ after.readFile p = .ok (contents, before.now) := by
  obtain ⟨-, loc, hloc, free, rfl⟩ := writeFile_eq_ok h
  have htouches : Touches (· = p) before (before.put loc (.file contents before.now)
      (housed_of_locate hloc free) free) :=
    touches_of_node? rfl hloc free fun l hne => by rw [node?_put, if_neg hne]
  refine ⟨htouches, readFile_eq_ok_iff.mpr ⟨loc, htouches.locate_eq hloc, ?_⟩⟩
  rw [node?_put, if_pos rfl]

theorem touches_removeFile {p : Path} (h : before.removeFile p = .ok after) :
    Touches (· = p) before after := by
  rw [removeFile] at h
  split at h
  · cases h
  · next loc hloc =>
    split at h
    · cases h
    · next free =>
      split at h
      · cases h
      · cases h
        exact touches_of_node? rfl hloc free fun l hne => by rw [node?_erase, if_neg hne]

/-- A directory is made at the end of a path without its slashes, where nothing stood. -/
theorem makeDir_eq_ok {p : Path} (h : before.makeDir p = .ok after) :
    flaw? p = none ∧ ∃ loc, ∃ hloc : before.locate (dropSlashes p).1 = .ok loc,
      before.node? loc = none ∧ ∃ free : before.node? loc ≠ some .directory,
        after = before.put loc .directory (housed_of_locate hloc free) free := by
  unfold makeDir at h
  split at h
  · cases h
  · next hflaw =>
    dsimp only at h
    split at h
    · cases h
    · split at h
      · cases h
      · next loc hloc =>
        split at h
        · next hnone =>
          cases h
          exact ⟨hflaw, loc, hloc, hnone, by simp [hnone], rfl⟩
        · cases h

/-- Directories are made where nothing stood. -/
theorem touches_makeDir {p : Path} (h : before.makeDir p = .ok after) :
    Touches (fun _ => False) before after := by
  obtain ⟨-, loc, hloc, hnone, free, rfl⟩ := makeDir_eq_ok h
  refine ⟨rfl, fun l hl => ?_, fun l => ?_⟩
  · rw [node?_put, hl]
    split <;> rfl
  · by_cases heq : loc = l
    · right
      left
      rw [node?_put, if_pos heq, ← heq]
      exact ⟨hnone, rfl⟩
    · left
      rw [node?_put, if_neg heq]

theorem touches_ensureDir {p : Path} (h : before.ensureDir p = .ok after) :
    Touches (fun _ => False) before after := by
  rw [ensureDir] at h
  split at h
  · next hmade =>
    cases h
    exact touches_makeDir hmade
  · split at h
    · cases h
      exact .refl _ _
    · cases h

theorem touches_settle {touched : Path → Prop} {change : Except FileError FileTree}
    (h : ∀ changed, change = .ok changed → Touches touched before changed) :
    Touches touched before (before.settle change).1 := by
  cases change with
  | ok changed => exact h changed rfl
  | error e => exact .refl _ _

theorem touches_makeDirsWithin (steps : Nat) (tree : FileTree) (p : Path) :
    Touches (fun _ => False) tree (makeDirsWithin steps tree p).1 := by
  induction steps generalizing tree p with
  | zero => exact touches_settle fun _ h => touches_ensureDir h
  | succ steps ih =>
      rw [makeDirsWithin]
      split
      · exact .refl _ _
      · split
        · next above _ _ =>
          have habove := ih tree above
          split
          · next made hmade =>
            rw [hmade] at habove
            exact habove.trans (touches_settle fun _ h => touches_ensureDir h)
          · next made e hmade =>
            rw [hmade] at habove
            exact habove
        · exact touches_settle fun _ h => touches_ensureDir h

theorem touches_makeDirs (tree : FileTree) (p : Path) :
    Touches (fun _ => False) tree (tree.makeDirs p).1 :=
  touches_makeDirsWithin _ tree p

theorem touches_makeHome (tree : FileTree) (p : Path) :
    Touches (fun _ => False) tree (tree.makeHome p).1 := by
  rw [makeHome]
  split
  · exact touches_makeDirs tree _
  · exact .refl _ _

/-- Setting the time of a file changes nothing else. -/
theorem touches_touch {p : Path} {modified : Moment} (h : before.touch p modified = .ok after) :
    Touches (· = p) before after := by
  rw [touch] at h
  split at h
  · cases h
  · next loc hloc =>
    split at h
    · cases h
    · cases h
      exact .refl _ _
    · next contents time hnode =>
      cases h
      have free : before.node? loc ≠ some .directory := by
        rw [hnode]
        intro heq
        cases heq
      exact touches_of_node? rfl hloc free fun l hne => by rw [node?_put, if_neg hne]

theorem touches_addFile (tree : FileTree) (p : Path) (contents : Bytes) (modified : Moment) :
    Touches (· = p) tree (tree.addFile p contents modified).1 := by
  have hhome : Touches (· = p) tree (tree.makeHome p).1 :=
    (touches_makeHome tree p).mono fun _ hp => hp.elim
  unfold addFile
  split
  · next made hmade =>
    rw [hmade] at hhome
    refine hhome.trans (touches_settle fun changed hchanged => ?_)
    cases hwrite : made.writeFile p contents with
    | error e =>
        rw [hwrite] at hchanged
        cases hchanged
    | ok written =>
        rw [hwrite] at hchanged
        exact (touches_writeFile hwrite).1.trans (touches_touch hchanged)
  · next made e hmade =>
    rw [hmade] at hhome
    exact hhome

end Registrar.FileTree
