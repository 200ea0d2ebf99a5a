import Registrar.Proofs.Directories

/-!
# Trees side by side

Two trees that differ at some locations are changed in the same way. When the paths that the changes
follow come by none of these locations (`FileTree.Bypasses`), the changes succeed together and leave
trees that differ as the first two do (`FileTree.Beside`). The way of a path is told by its parts
alone (`FileTree.route`), so that it stays the same while the trees change.
-/

namespace Registrar.FileTree

variable {tree grown a b : FileTree} {p above : Path} {parts rest : List Text}
  {start loc : Location}

/-! ## The way of a path -/

/-- The locations that the parts of a path come by from a start on, whatever stands there. -/
def stops : (parts : List Text) → Location → List Location
  | [], loc => [loc]
  | part :: parts, loc => loc :: stops parts (onward loc part)

/-- The locations that a path comes by. -/
def route (tree : FileTree) (p : Path) : List Location :=
  stops (p.splitWhere (· == '/')) (if p.isAbsolute then [] else tree.workingDir)

theorem mem_stops_append {l : Location} (h : l ∈ stops parts start) :
    l ∈ stops (parts ++ rest) start := by
  induction parts generalizing start with
  | nil =>
      obtain rfl := List.mem_singleton.mp h
      cases rest <;> exact List.mem_cons_self
  | cons part parts ih =>
      rcases List.mem_cons.mp h with rfl | h
      · exact List.mem_cons_self
      · exact List.mem_cons_of_mem _ (ih h)

/-- A walk hangs on what stands where it comes by. -/
theorem walk_congr (h : ∀ l ∈ stops parts start, b.node? l = a.node? l) :
    b.walk parts start = a.walk parts start := by
  induction parts generalizing start with
  | nil => rfl
  | cons part parts ih =>
      obtain ⟨hstart, hrest⟩ := List.forall_mem_cons.mp h
      by_cases hdir : a.node? start = some .directory
      · rw [walk_of_directory hdir, walk_of_directory (hstart.trans hdir), ih hrest]
      · rw [walk, walk, hstart]
        split
        · rfl
        · rfl
        · next hnode => exact absurd hnode hdir

/-- A walk ends at one of its stops. -/
theorem mem_stops_of_walk (h : tree.walk parts start = .ok loc) : loc ∈ stops parts start := by
  induction parts generalizing start with
  | nil =>
      obtain rfl := Except.ok.inj h
      exact List.mem_cons_self
  | cons part parts ih =>
      rw [walk_of_directory (node?_of_walk h)] at h
      split at h
      · cases h
      · exact List.mem_cons_of_mem _ (ih h)

theorem mem_route_of_locate (h : tree.locate p = .ok loc) : loc ∈ tree.route p := by
  rw [locate] at h
  split at h
  · cases h
  · exact mem_stops_of_walk h

/-! ## Paths that come by no difference -/

/-- A path comes by no location at which two trees differ. -/
def Bypasses (tree grown : FileTree) (p : Path) : Prop :=
  ∀ l ∈ tree.route p, grown.node? l = tree.node? l

instance (tree grown : FileTree) (p : Path) : Decidable (Bypasses tree grown p) :=
  inferInstanceAs (Decidable (∀ l ∈ tree.route p, grown.node? l = tree.node? l))

/-- The first parts of a path come by what the path comes by. -/
theorem Bypasses.of_split {q : Path} (h : Bypasses tree grown p)
    (habsolute : q.isAbsolute = p.isAbsolute)
    (hsplit : p.splitWhere (· == '/') = q.splitWhere (· == '/') ++ rest) :
    Bypasses tree grown q := by
  intro l hl
  unfold route at hl
  apply h l
  unfold route
  rw [hsplit, ← habsolute]
  exact mem_stops_append hl

theorem isAbsolute_append {q : Path} (hq : q ≠ []) (tail : Path) :
    Path.isAbsolute (q ++ tail) = q.isAbsolute := by
  obtain ⟨c, r, rfl⟩ := List.exists_cons_of_ne_nil hq
  rfl

/-- A path that is relative comes by the working directory, and so by what the empty path does. -/
theorem Bypasses.nil (h : Bypasses tree grown p) (hrelative : p.isAbsolute = false) :
    Bypasses tree grown [] := by
  have hmem : tree.workingDir ∈ tree.route p := by
    unfold route
    rw [hrelative]
    cases p.splitWhere (· == '/') <;> exact List.mem_cons_self
  have hroute : tree.route [] = [tree.workingDir, tree.workingDir] := rfl
  intro l hl
  rw [hroute] at hl
  obtain rfl : l = tree.workingDir := by simpa using hl
  exact h _ hmem

/-- The path above another comes by nothing else. The root is in every tree. -/
theorem Bypasses.parent (h : Bypasses tree grown p) (hparent : p.parent? = some above) :
    Bypasses tree grown above := by
  rcases p.parent?_cases with ⟨hnone, -⟩ | ⟨hdot, hstart⟩ | ⟨parts, rest, hbody, hrest, hsome⟩
  · cases hparent.symm.trans hnone
  · obtain rfl := Option.some.inj (hparent.symm.trans hdot)
    apply h.nil
    rcases p.parts_cases with ⟨hroot, -⟩ | ⟨hrelative, -⟩ | ⟨hrelative, -⟩
    · cases hstart.symm.trans hroot
    · exact hrelative
    · exact hrelative
  · obtain rfl := Option.some.inj (hparent.symm.trans hsome)
    rcases Path.toPath_cases hbody hrest with hroot | ⟨hempty, hrelative⟩ | ⟨hne, tail, hp⟩
    · rw [hroot]
      have hroute : tree.route "/" = [[], [], []] := rfl
      intro l hl
      rw [hroute] at hl
      obtain rfl : l = [] := by simpa using hl
      rfl
    · rw [hempty]
      exact h.nil hrelative
    · have hsplit := Text.splitWhere_append_cons (p := (· == '/')) (c := '/') rfl
        (Path.Parts.toPath ⟨p.parts.start, parts⟩) tail
      have habsolute := isAbsolute_append hne ('/' :: tail)
      rw [← hp] at hsplit habsolute
      exact h.of_split habsolute.symm hsplit

/-- Slashes at the end lead nowhere else. -/
theorem Bypasses.dropSlashes (h : Bypasses tree grown p) (hne : (dropSlashes p).1 ≠ []) :
    Bypasses tree grown (FileTree.dropSlashes p).1 := by
  obtain ⟨slashes, hp, -⟩ := exists_append_dropSlashes p
  obtain ⟨idle, -, hsplit⟩ := exists_splitWhere_dropSlashes p
  refine h.of_split ?_ hsplit
  have habsolute := isAbsolute_append hne slashes
  rw [← hp] at habsolute
  exact habsolute.symm

/-! ## Trees that differ in the same places -/

/-- Two trees that were changed from `tree` and `grown` in the same way: where those are the same
these are, and where those differ nothing has changed. -/
structure Beside (tree grown a b : FileTree) : Prop where
  workingDir : a.workingDir = tree.workingDir ∧ b.workingDir = tree.workingDir
  now : b.now = a.now
  same : ∀ l, grown.node? l = tree.node? l → b.node? l = a.node? l
  other : ∀ l, grown.node? l ≠ tree.node? l → a.node? l = tree.node? l ∧ b.node? l = grown.node? l

namespace Beside

theorem refl (hdir : grown.workingDir = tree.workingDir) (hnow : grown.now = tree.now) :
    Beside tree grown tree grown where
  workingDir := ⟨rfl, hdir⟩
  now := hnow
  same _ hl := hl
  other _ _ := ⟨rfl, rfl⟩

theorem locate_eq (h : Beside tree grown a b) (hp : Bypasses tree grown p) :
    b.locate p = a.locate p := by
  unfold locate
  rw [h.workingDir.1, h.workingDir.2]
  cases flaw? p with
  | some e => rfl
  | none => exact walk_congr fun l hl => h.same l (hp l hl)

/-- Where a path leads, the first trees are the same. -/
theorem same_of_locate (h : Beside tree grown a b) (hp : Bypasses tree grown p)
    (hloc : a.locate p = .ok loc) : grown.node? loc = tree.node? loc := by
  have hmem := mem_route_of_locate hloc
  unfold route at hmem
  rw [h.workingDir.1] at hmem
  exact hp loc hmem

theorem find_eq (h : Beside tree grown a b) (hp : Bypasses tree grown p) : b.find p = a.find p := by
  unfold find
  rw [h.locate_eq hp]
  cases hloc : a.locate p with
  | error e => rfl
  | ok loc =>
      dsimp only [bind, Except.bind]
      rw [h.same loc (h.same_of_locate hp hloc)]

theorem readFile_eq (h : Beside tree grown a b) (hp : Bypasses tree grown p) :
    b.readFile p = a.readFile p := by
  unfold readFile
  rw [h.find_eq hp]

theorem readText_eq (h : Beside tree grown a b) (hp : Bypasses tree grown p) :
    b.readText p = a.readText p := by
  unfold readText
  rw [h.readFile_eq hp]

theorem contains_eq (h : Beside tree grown a b) (hp : Bypasses tree grown p) :
    b.contains p = a.contains p := by
  unfold contains
  rw [h.find_eq hp]

theorem hasDir_eq (h : Beside tree grown a b) (hp : Bypasses tree grown p) :
    b.hasDir p = a.hasDir p := by
  unfold hasDir
  rw [h.find_eq hp]

/-- A change at one location where the first trees are the same leaves trees side by side. -/
theorem of_node? {a' b' : FileTree} {node : Option Node} (h : Beside tree grown a b)
    (hloc : grown.node? loc = tree.node? loc)
    (ha : a'.workingDir = a.workingDir ∧ a'.now = a.now ∧
      ∀ l, a'.node? l = if loc = l then node else a.node? l)
    (hb : b'.workingDir = b.workingDir ∧ b'.now = b.now ∧
      ∀ l, b'.node? l = if loc = l then node else b.node? l) : Beside tree grown a' b' := by
  obtain ⟨hadir, hanow, hanode⟩ := ha
  obtain ⟨hbdir, hbnow, hbnode⟩ := hb
  refine ⟨⟨hadir.trans h.workingDir.1, hbdir.trans h.workingDir.2⟩,
    hbnow.trans (h.now.trans hanow.symm), fun l hl => ?_, fun l hl => ?_⟩
  · rw [hanode, hbnode, h.same l hl]
  · have hne : loc ≠ l := fun heq => hl (heq ▸ hloc)
    rw [hanode, hbnode, if_neg hne, if_neg hne]
    exact h.other l hl

/-! ## Changes side by side -/

/-- Both trees get a file at a path, or neither does. -/
theorem writeFile (h : Beside tree grown a b) (hp : Bypasses tree grown p) (contents : Bytes) :
    ((∃ e, a.writeFile p contents = .error e) ∧ ∃ e, b.writeFile p contents = .error e) ∨
      ∃ a' b', a.writeFile p contents = .ok a' ∧ b.writeFile p contents = .ok b' ∧
        Beside tree grown a' b' := by
  cases ha : a.writeFile p contents with
  | ok a' =>
      obtain ⟨hslash, loc, hloc, free, rfl⟩ := writeFile_eq_ok ha
      have hsame := h.same_of_locate hp hloc
      have hb := writeFile_of_free hslash ((h.locate_eq hp).trans hloc) (h.same loc hsame ▸ free)
        contents
      refine Or.inr ⟨_, _, rfl, hb, h.of_node? hsame ⟨rfl, rfl, node?_put _ _⟩
        ⟨rfl, rfl, fun l => ?_⟩⟩
      rw [node?_put, h.now]
  | error e =>
      cases hb : b.writeFile p contents with
      | error e' => exact Or.inl ⟨⟨e, rfl⟩, e', rfl⟩
      | ok b' =>
          obtain ⟨hslash, loc, hloc, free, -⟩ := writeFile_eq_ok hb
          rw [h.locate_eq hp] at hloc
          rw [h.same loc (h.same_of_locate hp hloc)] at free
          cases ha.symm.trans (writeFile_of_free hslash hloc free contents)

/-- Both trees lose the file at a path, or neither does, for the same reason. -/
theorem removeFile (h : Beside tree grown a b) (hp : Bypasses tree grown p) :
    (∃ e, a.removeFile p = .error e ∧ b.removeFile p = .error e) ∨
      ∃ a' b', a.removeFile p = .ok a' ∧ b.removeFile p = .ok b' ∧ Beside tree grown a' b' := by
  unfold FileTree.removeFile
  rw [h.locate_eq hp]
  cases ha : a.locate p with
  | error e => exact Or.inl ⟨e, rfl, rfl⟩
  | ok loc =>
      have hloc := h.same_of_locate hp ha
      have hnode := h.same loc hloc
      dsimp only
      by_cases hdir : a.node? loc = some .directory
      · rw [dif_pos hdir, dif_pos (hnode.trans hdir)]
        exact Or.inl ⟨_, rfl, rfl⟩
      · rw [dif_neg hdir, dif_neg (hnode ▸ hdir)]
        by_cases hnone : a.node? loc = none
        · rw [if_pos hnone, if_pos (hnode.trans hnone)]
          exact Or.inl ⟨_, rfl, rfl⟩
        · rw [if_neg hnone, if_neg (hnode ▸ hnone)]
          exact Or.inr ⟨_, _, rfl, rfl, h.of_node? hloc ⟨rfl, rfl, node?_erase hdir⟩
            ⟨rfl, rfl, node?_erase (hnode ▸ hdir)⟩⟩

/-- Two changes fail for the same reason, or leave trees side by side. -/
inductive Together (tree grown : FileTree) :
    Except FileError FileTree → Except FileError FileTree → Prop
  | ok {a b : FileTree} (h : Beside tree grown a b) : Together tree grown (.ok a) (.ok b)
  | error (e : FileError) : Together tree grown (.error e) (.error e)

/-- Without its slashes a path leads to the same place in both trees, or nowhere. -/
theorem locate_dropSlashes_eq (h : Beside tree grown a b) (hp : Bypasses tree grown p) :
    b.locate (dropSlashes p).1 = a.locate (dropSlashes p).1 ∧
      ∀ loc, a.locate (dropSlashes p).1 = .ok loc → grown.node? loc = tree.node? loc := by
  by_cases hbare : (dropSlashes p).1 = []
  · rw [hbare]
    exact ⟨rfl, fun loc hloc => by cases hloc⟩
  · have hbypass := hp.dropSlashes hbare
    exact ⟨h.locate_eq hbypass, fun loc hloc => h.same_of_locate hbypass hloc⟩

theorem makeDir (h : Beside tree grown a b) (hp : Bypasses tree grown p) :
    Together tree grown (a.makeDir p) (b.makeDir p) := by
  obtain ⟨hlocate, hsame⟩ := h.locate_dropSlashes_eq hp
  unfold FileTree.makeDir
  split
  · exact .error _
  · dsimp only
    split
    · exact .error _
    · split
      · next e ha =>
        split
        · next hb =>
          cases (hlocate.trans ha).symm.trans hb
          exact .error _
        · next hb => cases (hlocate.trans ha).symm.trans hb
      · next loc ha =>
        have hnode := h.same loc (hsame loc ha)
        by_cases hnone : a.node? loc = none
        · rw [dif_pos hnone]
          split
          · next hb => cases (hlocate.trans ha).symm.trans hb
          · next hb =>
            cases (hlocate.trans ha).symm.trans hb
            rw [dif_pos (hnode.trans hnone)]
            exact .ok (h.of_node? (hsame loc ha) ⟨rfl, rfl, node?_put _ _⟩
              ⟨rfl, rfl, node?_put _ _⟩)
        · rw [dif_neg hnone]
          split
          · next hb => cases (hlocate.trans ha).symm.trans hb
          · next hb =>
            cases (hlocate.trans ha).symm.trans hb
            rw [dif_neg (hnode ▸ hnone)]
            exact .error _

theorem ensureDir (h : Beside tree grown a b) (hp : Bypasses tree grown p) :
    Together tree grown (a.ensureDir p) (b.ensureDir p) := by
  have hmade := h.makeDir hp
  unfold FileTree.ensureDir
  rw [h.hasDir_eq hp]
  generalize a.makeDir p = ma, b.makeDir p = mb at hmade
  cases hmade with
  | ok hbeside => exact .ok hbeside
  | error e =>
      dsimp only
      split
      · exact .ok h
      · exact .error e

/-- What two changes leave behind, with the same result. -/
structure Settled (tree grown : FileTree) (a b : FileTree × Except FileError Unit) : Prop where
  trees : Beside tree grown a.1 b.1
  result : b.2 = a.2

theorem settle {ma mb : Except FileError FileTree} (h : Beside tree grown a b)
    (hmade : Together tree grown ma mb) : Settled tree grown (a.settle ma) (b.settle mb) := by
  cases hmade with
  | ok hbeside => exact ⟨hbeside, rfl⟩
  | error e => exact ⟨h, rfl⟩

/-- Directories are made side by side, from the top down. -/
theorem makeDirsWithin (steps : Nat) (h : Beside tree grown a b) (hp : Bypasses tree grown p) :
    Settled tree grown (FileTree.makeDirsWithin steps a p) (FileTree.makeDirsWithin steps b p) := by
  induction steps generalizing p with
  | zero => exact h.settle (h.ensureDir hp)
  | succ steps ih =>
      rw [FileTree.makeDirsWithin, FileTree.makeDirsWithin]
      split
      · exact ⟨h, rfl⟩
      · have hmade := h.ensureDir hp
        generalize a.ensureDir p = ma, b.ensureDir p = mb at hmade
        cases hmade with
        | ok hbeside => exact ⟨hbeside, rfl⟩
        | error e =>
            cases hparent : p.parent? with
            | none => cases e <;> exact ⟨h, rfl⟩
            | some above =>
                cases e with
                | notFound =>
                    obtain ⟨htrees, hresult⟩ := ih (hp.parent hparent)
                    dsimp only
                    generalize FileTree.makeDirsWithin steps a above = wa,
                      FileTree.makeDirsWithin steps b above = wb at htrees hresult ⊢
                    obtain ⟨a', result⟩ := wa
                    obtain ⟨b', result'⟩ := wb
                    obtain rfl : result' = result := hresult
                    cases result' with
                    | ok done => exact Beside.settle htrees (Beside.ensureDir htrees hp)
                    | error e => exact ⟨htrees, rfl⟩
                | alreadyExists | notDirectory | isDirectory | nameTooLong | nullInName | notText =>
                    exact ⟨h, rfl⟩

theorem makeDirs (h : Beside tree grown a b) (hp : Bypasses tree grown p) :
    Settled tree grown (a.makeDirs p) (b.makeDirs p) :=
  h.makeDirsWithin _ hp

theorem makeHome (h : Beside tree grown a b) (hp : Bypasses tree grown p) :
    Settled tree grown (a.makeHome p) (b.makeHome p) := by
  unfold FileTree.makeHome
  cases hparent : p.parent? with
  | none => exact ⟨h, rfl⟩
  | some above => exact h.makeDirs (hp.parent hparent)

end Beside

end Registrar.FileTree
