import Registrar.Proofs.Sites
import Registrar.Proofs.TreeFrame

/-!
# Directories that are there already

A directory is made at the end of a path without its slashes, and where something stands none is
made. So making directories that are there changes nothing (`FileTree.makeDirs_of_hasDir`), and
after they could be made they are there for good (`FileTree.makeDirs_again`). The path above that of
a file leads to a directory as well (`FileTree.hasDir_home`).
-/

namespace Registrar

/-! ## The path of a directory -/

namespace Path

/-- The path of the directory that a path says its file is in. -/
def home (p : Path) : Path :=
  match p.parent? with
  | some dir => if dir = [] then "." else dir
  | none => "."

/-- The parts of a path with slashes between them are the path. -/
theorem joinWith_splitWhere (p : Path) : Text.joinWith "/" (p.splitWhere (· == '/')) = p := by
  induction p with
  | nil => rfl
  | cons c rest ih =>
      obtain ⟨first, others, hrest⟩ :=
        List.exists_cons_of_ne_nil (Text.splitWhere_ne_nil (· == '/') rest)
      rw [hrest, Text.joinWith_cons] at ih
      rw [Text.splitWhere, hrest]
      split
      · next hslash =>
        rw [Text.joinWith_cons, List.flatMap_cons, ← ih, eq_of_beq hslash]
        rfl
      · dsimp only
        rw [Text.joinWith_cons, ← ih]
        rfl

/-- Parts and further parts have a slash between them. -/
theorem exists_joinWith_append {parts rest : List Text} (hparts : parts ≠ []) (hrest : rest ≠ []) :
    ∃ tail, Text.joinWith "/" (parts ++ rest) = Text.joinWith "/" parts ++ '/' :: tail := by
  obtain ⟨first, others, rfl⟩ := List.exists_cons_of_ne_nil hparts
  obtain ⟨next, last, rfl⟩ := List.exists_cons_of_ne_nil hrest
  refine ⟨next ++ last.flatMap (("/" : Text) ++ ·), ?_⟩
  rw [List.cons_append, Text.joinWith_cons, Text.joinWith_cons, List.flatMap_append,
    List.flatMap_cons, List.append_assoc, List.append_assoc]
  rfl

/-- How a path starts, and the parts that follow. -/
theorem parts_cases (p : Path) :
    (p.parts.start = some .root ∧ p.splitWhere (· == '/') = [] :: p.parts.body) ∨
    (p.isAbsolute = false ∧ p.parts.start = some .current ∧
      p.splitWhere (· == '/') = ['.'] :: p.parts.body) ∨
    (p.isAbsolute = false ∧ p.parts.start = none ∧ p.splitWhere (· == '/') = p.parts.body) := by
  have habsolute : p.isAbsolute = true → ∃ rest, p = '/' :: rest := by
    cases p with
    | nil => simp [isAbsolute]
    | cons c rest => simp [isAbsolute]
  unfold parts
  split
  · next hsplit => exact Or.inl ⟨rfl, hsplit⟩
  · next hsplit => 
    refine Or.inr (Or.inl ⟨?_, rfl, hsplit⟩)
    rw [← Bool.not_eq_true]
    intro h
    obtain ⟨rest, rfl⟩ := habsolute h
    cases hsplit
  · next hroot _ =>
    refine Or.inr (Or.inr ⟨?_, rfl, rfl⟩)
    rw [← Bool.not_eq_true]
    intro h
    obtain ⟨rest, rfl⟩ := habsolute h
    obtain ⟨first, others, hrest⟩ :=
      List.exists_cons_of_ne_nil (Text.splitWhere_ne_nil (· == '/') rest)
    exact hroot first others (congrArg ([] :: ·) hrest)

theorem exists_append_trimEnd (parts : Parts) :
    ∃ idle, parts.body = parts.trimEnd.body ++ idle ∧ ∀ part ∈ idle, isIdle part = true := by
  refine ⟨(parts.body.reverse.takeWhile isIdle).reverse, ?_, fun part hpart => ?_⟩
  · show parts.body = (parts.body.reverse.dropWhile isIdle).reverse ++ _
    rw [← List.reverse_append, List.takeWhile_append_dropWhile, List.reverse_reverse]
  · exact List.all_eq_true.mp List.all_takeWhile part (List.mem_reverse.mp hpart)

/-- The path above another has some of its parts, but not all. -/
theorem parent?_cases (p : Path) :
    (p.parent? = none ∧ ∀ part ∈ p.parts.body, isIdle part = true) ∨
    (p.parent? = some [] ∧ p.parts.start = some .current) ∨
    ∃ parts rest, p.parts.body = parts ++ rest ∧ rest ≠ [] ∧
      p.parent? = some (Parts.toPath ⟨p.parts.start, parts⟩) := by
  obtain ⟨idle, hbody, hidle⟩ := exists_append_trimEnd p.parts
  unfold parent?
  generalize htrimmed : p.parts.trimEnd = trimmed at hbody ⊢
  have hstart : trimmed.start = p.parts.start := htrimmed ▸ rfl
  rw [← hstart, hbody]
  obtain ⟨start, body⟩ := trimmed
  dsimp only
  rcases List.eq_nil_or_concat body with rfl | ⟨front, last, rfl⟩
  · cases start with
    | none => exact Or.inl ⟨rfl, hidle⟩
    | some c =>
        cases c with
        | current => exact Or.inr (Or.inl ⟨rfl, rfl⟩)
        | root | parent | name n => exact Or.inl ⟨rfl, hidle⟩
  · obtain ⟨idle', hfront, -⟩ := exists_append_trimEnd ⟨start, front⟩
    rw [List.concat_eq_append]
    refine Or.inr (Or.inr ⟨(Parts.trimEnd ⟨start, front⟩).body, idle' ++ last :: idle, ?_, ?_, ?_⟩)
    · rw [List.append_assoc, List.singleton_append, ← List.append_assoc, ← hfront]
    · simp
    · split
      · next heq => exact absurd heq (by simp)
      · next heq => exact absurd heq (by simp)
      · rw [List.dropLast_concat]
        rfl

/-- The first parts of a path are a slash, or nothing, or the path without its end. -/
theorem toPath_cases {p : Path} {parts rest : List Text} (hbody : p.parts.body = parts ++ rest)
    (hrest : rest ≠ []) :
    Parts.toPath ⟨p.parts.start, parts⟩ = "/" ∨
    (Parts.toPath ⟨p.parts.start, parts⟩ = [] ∧ p.isAbsolute = false) ∨
    Parts.toPath ⟨p.parts.start, parts⟩ ≠ [] ∧
      ∃ tail, p = Parts.toPath ⟨p.parts.start, parts⟩ ++ '/' :: tail := by
  have hp := joinWith_splitWhere p
  rcases parts_cases p with ⟨hstart, hsplit⟩ | ⟨-, hstart, hsplit⟩ | ⟨hrelative, hstart, hsplit⟩
  · rw [hsplit, hbody] at hp
    rw [hstart]
    by_cases hempty : parts = []
    · subst hempty
      exact Or.inl rfl
    · obtain ⟨tail, htail⟩ := exists_joinWith_append (List.cons_ne_nil [] parts) hrest
      have hjoin : Text.joinWith "/" ([] :: parts) = Parts.toPath ⟨some .root, parts⟩ := by
        obtain ⟨first, others, rfl⟩ := List.exists_cons_of_ne_nil hempty
        show _ = '/' :: Text.joinWith _ _
        rw [Text.joinWith_cons, Text.joinWith_cons]
        rfl
      rw [← hjoin, ← hp]
      refine Or.inr (Or.inr ⟨?_, tail, htail⟩)
      rw [hjoin]
      exact List.cons_ne_nil _ _
  · rw [hsplit, hbody] at hp
    rw [hstart]
    obtain ⟨tail, htail⟩ := exists_joinWith_append (List.cons_ne_nil ['.'] parts) hrest
    refine Or.inr (Or.inr ⟨?_, tail, hp.symm.trans htail⟩)
    show Text.joinWith _ (_ :: _) ≠ []
    rw [Text.joinWith_cons]
    exact List.cons_ne_nil _ _
  · rw [hsplit, hbody] at hp
    rw [hstart]
    by_cases hempty : Parts.toPath ⟨none, parts⟩ = []
    · exact Or.inr (Or.inl ⟨hempty, hrelative⟩)
    · have hparts : parts ≠ [] := fun heq => hempty (heq ▸ rfl)
      obtain ⟨tail, htail⟩ := exists_joinWith_append hparts hrest
      exact Or.inr (Or.inr ⟨hempty, tail, hp.symm.trans htail⟩)

/-- The path of the directory is that of the file without its end, where it is more than a dot or a
slash. -/
theorem home_cases (p : Path) :
    (p.home = "." ∧
      (p.isAbsolute = false ∨ ∀ part ∈ p.splitWhere (· == '/'), isIdle part = true)) ∨
    p.home = "/" ∨ p.home ≠ [] ∧ ∃ tail, p = p.home ++ '/' :: tail := by
  unfold home
  rcases parent?_cases p with ⟨hnone, hidle⟩ | ⟨hdot, hstart⟩ | ⟨parts, rest, hbody, hrest, hsome⟩
  · rw [hnone]
    refine Or.inl ⟨rfl, ?_⟩
    rcases parts_cases p with ⟨-, hsplit⟩ | ⟨hrelative, -⟩ | ⟨hrelative, -⟩
    · right
      rw [hsplit]
      exact List.forall_mem_cons.mpr ⟨rfl, hidle⟩
    · exact Or.inl hrelative
    · exact Or.inl hrelative
  · rw [hdot]
    refine Or.inl ⟨rfl, Or.inl ?_⟩
    rcases parts_cases p with ⟨hroot, -⟩ | ⟨hrelative, -⟩ | ⟨hrelative, -⟩
    · rw [hstart] at hroot
      cases hroot
    · exact hrelative
    · exact hrelative
  · rw [hsome]
    dsimp only
    rcases toPath_cases hbody hrest with hroot | ⟨hempty, hrelative⟩ | ⟨hne, htail⟩
    · rw [hroot]
      exact Or.inr (Or.inl rfl)
    · rw [if_pos hempty]
      exact Or.inl ⟨rfl, Or.inl hrelative⟩
    · rw [if_neg hne]
      exact Or.inr (Or.inr ⟨hne, htail⟩)

end Path

namespace FileTree

variable {tree before after : FileTree} {p : Path} {loc start : Location} {idle : List Text}

/-! ## Slashes at the end of a path -/

theorem exists_append_dropSlashes (p : Path) :
    ∃ slashes : Text, p = (dropSlashes p).1 ++ slashes ∧ ∀ c ∈ slashes, c = '/' := by
  refine ⟨(p.splitTail (· == '/')).2, ?_, fun c hc => ?_⟩
  · show p = (p.reverse.dropWhile _).reverse ++ (p.reverse.takeWhile _).reverse
    rw [← List.reverse_append, List.takeWhile_append_dropWhile, List.reverse_reverse]
  · have hall := List.all_eq_true.mp List.all_takeWhile c (List.mem_reverse.mp hc)
    exact eq_of_beq hall

/-- What follows the last name of a path are slashes, and so idle parts. -/
theorem exists_splitWhere_dropSlashes (p : Path) :
    ∃ idle, (∀ part ∈ idle, Path.isIdle part = true) ∧
      p.splitWhere (· == '/') = (dropSlashes p).1.splitWhere (· == '/') ++ idle := by
  have hsplit : ∀ rest : Text, (∀ c ∈ rest, c = '/') →
      ∀ part ∈ rest.splitWhere (· == '/'), Path.isIdle part = true := by
    intro rest hrest
    induction rest with
    | nil => exact fun part hpart => List.mem_singleton.mp hpart ▸ rfl
    | cons c rest ih =>
        obtain rfl := hrest c List.mem_cons_self
        intro part hpart
        rcases List.mem_cons.mp hpart with rfl | hpart
        · rfl
        · exact ih (fun c hc => hrest c (List.mem_cons_of_mem _ hc)) part hpart
  obtain ⟨slashes, hp, hslashes⟩ := exists_append_dropSlashes p
  generalize (dropSlashes p).1 = bare at hp ⊢
  subst hp
  cases slashes with
  | nil => exact ⟨[], fun part hpart => absurd hpart List.not_mem_nil, by simp⟩
  | cons c rest =>
      obtain rfl := hslashes c List.mem_cons_self
      refine ⟨Text.splitWhere (· == '/') rest,
        hsplit rest fun c hc => hslashes c (List.mem_cons_of_mem _ hc), ?_⟩
      exact Text.splitWhere_append_cons (by rfl) bare rest

theorem walk_idle (hidle : ∀ part ∈ idle, Path.isIdle part = true)
    (hdir : tree.node? loc = some .directory) :
    tree.walk idle loc = .ok loc := by
  induction idle with
  | nil => rfl
  | cons part idle ih =>
      rw [walk, hdir]
      dsimp only
      rw [if_pos (hidle part List.mem_cons_self)]
      exact ih fun part hpart => hidle part (List.mem_cons_of_mem _ hpart)

theorem eq_of_walk_idle (hidle : ∀ part ∈ idle, Path.isIdle part = true)
    (h : tree.walk idle start = .ok loc) : loc = start := by
  cases idle with
  | nil => exact (Except.ok.inj h).symm
  | cons part idle =>
      rw [walk_idle hidle (node?_of_walk h)] at h
      exact (Except.ok.inj h).symm

/-- A path leads where it leads without its slashes, or nowhere. -/
theorem exists_locate_eq_walk (hflaw : flaw? p = none)
    (hloc : tree.locate (dropSlashes p).1 = .ok loc) :
    ∃ idle, (∀ part ∈ idle, Path.isIdle part = true) ∧ tree.locate p = tree.walk idle loc := by
  obtain ⟨idle, hidle, hsplit⟩ := exists_splitWhere_dropSlashes p
  refine ⟨idle, hidle, ?_⟩
  obtain ⟨slashes, hp, -⟩ := exists_append_dropSlashes p
  generalize (dropSlashes p).1 = bare at hloc hsplit hp
  rw [locate] at hloc
  split at hloc
  · cases hloc
  · next hbare =>
    have habsolute : p.isAbsolute = bare.isAbsolute := by
      cases bare with
      | nil => cases hbare
      | cons c rest =>
          rw [hp]
          rfl
    rw [locate, hflaw, hsplit, habsolute]
    show tree.walk (_ ++ idle) _ = _
    rw [walk_append, hloc]
    rfl

/-! ## Making directories -/

theorem hasDir_iff : tree.hasDir p = true ↔
    ∃ loc, tree.locate p = .ok loc ∧ tree.node? loc = some .directory := by
  cases hloc : tree.locate p with
  | error e => simp [hasDir, find, hloc, bind, Except.bind]
  | ok loc =>
      cases hnode : tree.node? loc with
      | none => simp [hasDir, find, hloc, hnode, bind, Except.bind]
      | some node =>
          cases node with
          | directory => simp [hasDir, find, hloc, hnode, bind, Except.bind]
          | file c m => simp [hasDir, find, hloc, hnode, bind, Except.bind]

theorem ensureDir_of_hasDir (h : tree.hasDir p = true) : tree.ensureDir p = .ok tree := by
  unfold ensureDir
  cases hmake : tree.makeDir p with
  | error e => exact if_pos h
  | ok made =>
      -- nothing stands where a directory is made
      exfalso
      obtain ⟨hflaw, loc, hloc, hnone, -⟩ := makeDir_eq_ok hmake
      obtain ⟨idle, hidle, heq⟩ := exists_locate_eq_walk hflaw hloc
      obtain ⟨l, hl, hdir⟩ := hasDir_iff.mp h
      rw [heq] at hl
      obtain rfl := eq_of_walk_idle hidle hl
      rw [hnone] at hdir
      cases hdir

theorem hasDir_of_ensureDir (h : before.ensureDir p = .ok after) : after.hasDir p = true := by
  rw [ensureDir] at h
  split at h
  · next made hmade =>
    cases h
    have htouches := touches_makeDir hmade
    obtain ⟨hflaw, loc, hloc, -, free, rfl⟩ := makeDir_eq_ok hmade
    obtain ⟨idle, hidle, heq⟩ := exists_locate_eq_walk hflaw (htouches.locate_eq hloc)
    have hdir : (before.put loc .directory (housed_of_locate hloc free) free).node? loc =
        some .directory := by
      rw [node?_put, if_pos rfl]
    exact hasDir_iff.mpr ⟨loc, heq.trans (walk_idle hidle hdir), hdir⟩
  · split at h
    · next hthere =>
      cases h
      exact hthere
    · cases h

theorem hasDir_of_settle {change : Except FileError FileTree}
    (hchange : ∀ changed, change = .ok changed → changed.hasDir p = true)
    (h : (tree.settle change).2 = .ok ()) : (tree.settle change).1.hasDir p = true := by
  cases change with
  | ok changed => exact hchange changed rfl
  | error e => cases h

theorem hasDir_of_makeDirs (hp : p ≠ []) (h : (tree.makeDirs p).2 = .ok ()) :
    (tree.makeDirs p).1.hasDir p = true := by
  unfold makeDirs at h ⊢
  rw [makeDirsWithin, if_neg hp] at h ⊢
  split at h
  · split at h
    · exact hasDir_of_settle (fun _ hchanged => hasDir_of_ensureDir hchanged) h
    · cases h
  · exact hasDir_of_settle (fun _ hchanged => hasDir_of_ensureDir hchanged) h

/-- Directories are not made where there are some. -/
theorem makeDirs_of_hasDir (h : tree.hasDir p = true) : tree.makeDirs p = (tree, .ok ()) := by
  unfold makeDirs
  rw [makeDirsWithin, ensureDir_of_hasDir h]
  split <;> rfl

/-- Directories that could be made are there to stay. -/
theorem makeDirs_again {touched : Path → Prop} (h : (before.makeDirs p).2 = .ok ())
    (htouches : Touches touched (before.makeDirs p).1 after) :
    after.makeDirs p = (after, .ok ()) := by
  by_cases hp : p = []
  · subst hp
    rfl
  · obtain ⟨loc, hloc, hdir⟩ := hasDir_iff.mp (hasDir_of_makeDirs hp h)
    exact makeDirs_of_hasDir
      (hasDir_iff.mpr ⟨loc, htouches.locate_eq hloc, htouches.keeps loc hdir⟩)

theorem makeHome_again {touched : Path → Prop} (h : (before.makeHome p).2 = .ok ())
    (htouches : Touches touched (before.makeHome p).1 after) :
    after.makeHome p = (after, .ok ()) := by
  unfold makeHome at h htouches ⊢
  cases hparent : p.parent? with
  | none => rfl
  | some above =>
      rw [hparent] at h htouches
      exact makeDirs_again h htouches

/-! ## The directory of a file -/

theorem flaw?_of_append {p tail : Path} (hp : p ≠ []) (h : flaw? (p ++ tail) = none) :
    flaw? p = none := by
  unfold flaw? at h ⊢
  rw [if_neg hp]
  split at h
  · cases h
  · split at h
    · cases h
    · next hnull =>
      split at h
      · cases h
      · next hlong =>
        rw [Text.byteLength_append] at hlong
        rw [if_neg fun hmem => hnull (List.mem_append_left _ hmem), if_neg (by omega)]

/-- A file is in a directory that the path above its own leads to. -/
theorem hasDir_home {read : Bytes × Moment} (h : tree.readFile p = .ok read) :
    tree.hasDir p.home = true := by
  obtain ⟨contents, modified⟩ := read
  obtain ⟨loc, hloc, hfile⟩ := readFile_eq_ok_iff.mp h
  rw [locate] at hloc
  split at hloc
  · cases hloc
  · next hflaw =>
    rcases p.home_cases with ⟨hdot, hrelative | hidle⟩ | hroot | ⟨hne, tail, hp⟩
    · obtain ⟨part, parts, hsplit⟩ :=
        List.exists_cons_of_ne_nil (Text.splitWhere_ne_nil (· == '/') p)
      rw [hsplit, hrelative] at hloc
      have hdir := node?_of_walk hloc
      have hidle : ∀ part ∈ [(['.'] : Text)], Path.isIdle part = true := by decide
      rw [hdot]
      exact hasDir_iff.mpr ⟨tree.workingDir, walk_idle hidle hdir, hdir⟩
    · -- a path of idle parts leads to where it starts, and that is no file
      exfalso
      obtain rfl := eq_of_walk_idle hidle hloc
      obtain ⟨part, parts, hsplit⟩ :=
        List.exists_cons_of_ne_nil (Text.splitWhere_ne_nil (· == '/') p)
      rw [hsplit] at hloc
      rw [node?_of_walk hloc] at hfile
      cases hfile
    · rw [hroot]
      rfl
    · generalize p.home = dir at hne hp
      subst hp
      have habsolute : Path.isAbsolute (dir ++ '/' :: tail) = dir.isAbsolute := by
        obtain ⟨c, rest, rfl⟩ := List.exists_cons_of_ne_nil hne
        rfl
      rw [Text.splitWhere_append_cons (by rfl) dir tail, habsolute] at hloc
      obtain ⟨above, habove, hrest⟩ := exists_walk_of_append hloc
      obtain ⟨part, parts, hsplit⟩ :=
        List.exists_cons_of_ne_nil (Text.splitWhere_ne_nil (· == '/') tail)
      rw [hsplit] at hrest
      refine hasDir_iff.mpr ⟨above, ?_, node?_of_walk hrest⟩
      rw [locate, flaw?_of_append hne hflaw]
      exact habove

end FileTree

end Registrar
