import Registrar.Build.Generate
import Registrar.Proofs.TreeFrame

/-!
# Putting artifacts in place

A file holds a text when it can be read and has the bytes of the text (`FileTree.Holds`). An
artifact that is put in place is held afterwards, and one that was held already changes nothing
(`Build.writeIfChanged_of_holds`). The artifacts of an entity are put in place one after the other
and lead to different locations, so those before are still held when the last one is
(`Build.Emission.holds_of_complete`).
-/

namespace Registrar

open FileTree (Apart IsEntryName Touches)

/-! ## Paths of artifacts -/

namespace Artifact

theorem paths_eq (e : Entity) (role : Role) (headerName : Text) (outDir : Path) :
    paths e outDir = (render e role headerName outDir).map (·.path) := by
  unfold paths render
  split <;> rfl

/-- The endings of the names of artifacts. -/
def suffixes : List Text := [headerSuffix, sourceSuffix]

/-- The path of a file in the output directory that has the name of an artifact. -/
def IsPath (outDir p : Path) : Prop :=
  ∃ name, '/' ∉ name ∧ ∃ suffix ∈ suffixes, p = outDir.join (name ++ suffix)

theorem isEntryName {name suffix : Text} (hname : '/' ∉ name) (hsuffix : suffix ∈ suffixes) :
    IsEntryName (name ++ suffix) := by
  have hslash : ∀ s ∈ suffixes, '/' ∉ s := by decide
  have hlong : ∀ s ∈ suffixes, 2 < s.length := by decide
  have hlength : 2 < (name ++ suffix).length := by
    rw [List.length_append]
    have := hlong suffix hsuffix
    omega
  refine ⟨?_, ?_, ?_⟩
  · intro hmem
    rcases List.mem_append.mp hmem with h | h
    · exact hname h
    · exact hslash suffix hsuffix h
  · unfold Path.isIdle
    rw [Bool.or_eq_false_iff, beq_eq_false_iff_ne, beq_eq_false_iff_ne]
    constructor <;> intro heq <;> rw [heq] at hlength <;> simp at hlength
  · intro heq
    rw [heq] at hlength
    simp at hlength

/-- The name of an artifact has one ending. -/
theorem eq_of_append_suffix {name name' suffix suffix' : Text} (hsuffix : suffix ∈ suffixes)
    (hsuffix' : suffix' ∈ suffixes) (h : name ++ suffix = name' ++ suffix') :
    name = name' ∧ suffix = suffix' := by
  have hlast : ∀ s ∈ suffixes, ∀ s' ∈ suffixes, s.getLast? = s'.getLast? → s = s' := by decide
  have hsome : ∀ s ∈ suffixes, s.getLast?.isSome := by decide
  have hend : ∀ s ∈ suffixes, ∀ n : Text, (n ++ s).getLast? = s.getLast? := by
    intro s hs n
    rw [List.getLast?_append, Option.or_of_isSome (hsome s hs)]
  have heq : suffix = suffix' := by
    apply hlast suffix hsuffix suffix' hsuffix'
    rw [← hend suffix hsuffix name, h, hend suffix' hsuffix' name']
  subst heq
  exact ⟨List.append_cancel_right h, rfl⟩

theorem exists_suffix_of_mem_paths {e : Entity} {outDir p : Path} (h : p ∈ paths e outDir) :
    ∃ suffix ∈ suffixes, p = outDir.join (e.name ++ suffix) := by
  unfold paths at h
  rcases List.mem_append.mp h with hheader | hsource
  · split at hheader
    · cases hheader
    · exact ⟨headerSuffix, by decide, List.mem_singleton.mp hheader⟩
  · exact ⟨sourceSuffix, by decide, List.mem_singleton.mp hsource⟩

theorem isPath_of_mem_paths {e : Entity} {outDir p : Path} (hslash : '/' ∉ e.name)
    (h : p ∈ paths e outDir) : IsPath outDir p := by
  obtain ⟨suffix, hsuffix, hpath⟩ := exists_suffix_of_mem_paths h
  exact ⟨e.name, hslash, suffix, hsuffix, hpath⟩

/-- Different paths of artifacts lead to different locations. -/
theorem IsPath.apart {outDir p q : Path} (hp : IsPath outDir p) (hq : IsPath outDir q)
    (hne : p ≠ q) : Apart p q := by
  obtain ⟨name, hname, suffix, hsuffix, rfl⟩ := hp
  obtain ⟨name', hname', suffix', hsuffix', rfl⟩ := hq
  apply FileTree.apart_join (isEntryName hname hsuffix) (isEntryName hname' hsuffix')
  intro heq
  exact hne (by rw [heq])

/-- A path whose last name has no ending of an artifact leads to none. -/
theorem IsPath.apart_of_suffix {outDir dir q : Path} {name : Text} (hq : IsPath outDir q)
    (hname : IsEntryName name) (hsuffix : ∀ suffix ∈ suffixes, ¬ suffix <:+ name) :
    Apart (dir.join name) q := by
  obtain ⟨name', hname', suffix, hmem, rfl⟩ := hq
  apply FileTree.apart_join hname (isEntryName hname' hmem)
  intro heq
  exact hsuffix suffix hmem ⟨name', heq.symm⟩

/-- Artifacts of entities with different names lead to different locations. -/
theorem apart_paths {e e' : Entity} {outDir p q : Path} (hslash : '/' ∉ e.name)
    (hslash' : '/' ∉ e'.name) (hne : e.name ≠ e'.name) (hp : p ∈ paths e outDir)
    (hq : q ∈ paths e' outDir) : Apart p q := by
  obtain ⟨suffix, hsuffix, rfl⟩ := exists_suffix_of_mem_paths hp
  obtain ⟨suffix', hsuffix', rfl⟩ := exists_suffix_of_mem_paths hq
  apply FileTree.apart_join (isEntryName hslash hsuffix) (isEntryName hslash' hsuffix')
  intro heq
  exact hne (eq_of_append_suffix hsuffix hsuffix' heq).1

/-- The artifacts of an entity lead to different locations. -/
theorem pairwise_apart (e : Entity) (hslash : '/' ∉ e.name) (outDir : Path) :
    (paths e outDir).Pairwise Apart := by
  have happart : Apart (headerPath e outDir) (sourcePath e outDir) := by
    apply FileTree.apart_join (isEntryName hslash (by decide)) (isEntryName hslash (by decide))
    intro heq
    have hsuffix := (eq_of_append_suffix (by decide) (by decide) heq).2
    revert hsuffix
    decide
  unfold paths
  split
  · exact List.pairwise_singleton _ _
  · exact List.pairwise_pair.mpr happart

end Artifact

/-! ## Held texts -/

/-- The file at a path has the bytes of a text. -/
def FileTree.Holds (tree : FileTree) (p : Path) (t : Text) : Prop :=
  ∃ modified, tree.readFile p = .ok (Utf8.encode t, modified)

theorem FileTree.Holds.of_touches {before after : FileTree} {touched : Path → Prop} {p : Path}
    {t : Text} (h : before.Holds p t) (htouches : Touches touched before after)
    (hapart : ∀ q, touched q → Apart p q) : after.Holds p t := by
  obtain ⟨modified, hread⟩ := h
  exact ⟨modified, htouches.readFile_eq hapart hread⟩

namespace Build

/-- An artifact that was put in place is held, and nothing else changed. -/
theorem touches_writeIfChanged {before after : FileTree} {a : Artifact} {written : Bool}
    (h : writeIfChanged before a = .ok (after, written)) :
    Touches (· = a.path) before after ∧ after.Holds a.path a.contents := by
  have hwrite : ∀ {made : FileTree × Bool},
      (orWriteError a.path (before.writeText a.path a.contents)).map (·, true) = .ok made →
      Touches (· = a.path) before made.1 ∧ made.1.Holds a.path a.contents := by
    intro made hmade
    cases hw : before.writeText a.path a.contents with
    | error e =>
        rw [hw] at hmade
        cases hmade
    | ok changed =>
        rw [hw] at hmade
        cases hmade
        obtain ⟨htouches, hread⟩ := FileTree.touches_writeFile hw
        exact ⟨htouches, before.now, hread⟩
  unfold writeIfChanged at h
  dsimp only at h
  split at h
  · next existing modified hread =>
    split at h
    · next hsame =>
      cases h
      exact ⟨.refl _ _, modified, by rw [hread, hsame]⟩
    · exact hwrite h
  · exact hwrite h

/-- An artifact that is held is left alone. -/
theorem writeIfChanged_of_holds {tree : FileTree} {a : Artifact}
    (h : tree.Holds a.path a.contents) : writeIfChanged tree a = .ok (tree, false) := by
  obtain ⟨modified, hread⟩ := h
  unfold writeIfChanged
  rw [hread]
  exact if_pos rfl

/-! ## The artifacts of an entity -/

namespace Emission

/-- An artifact is put in place or fails. -/
theorem add_cases (s : Emission) (a : Artifact) :
    (Touches (· = a.path) s.tree (s.add a).tree ∧ (s.add a).tree.Holds a.path a.contents ∧
      (s.add a).complete = s.complete ∧ (s.add a).summary.failures = s.summary.failures) ∨
    ((s.add a).tree = s.tree ∧ (s.add a).complete = false ∧
      (s.add a).summary.failures = s.summary.failures + 1) := by
  unfold add
  split
  · next hwrite =>
    obtain ⟨htouches, hholds⟩ := touches_writeIfChanged hwrite
    exact Or.inl ⟨htouches, hholds, rfl, rfl⟩
  · next hwrite =>
    obtain ⟨htouches, hholds⟩ := touches_writeIfChanged hwrite
    exact Or.inl ⟨htouches, hholds, rfl, rfl⟩
  · exact Or.inr ⟨rfl, rfl, rfl⟩

/-- An artifact is held after its turn, unless it could not be written. -/
theorem holds_add_or_error (s : Emission) (a : Artifact) :
    (s.add a).tree.Holds a.path a.contents ∨ ∃ e, writeIfChanged s.tree a = .error e := by
  unfold add
  split
  · next hwrite => exact Or.inl (touches_writeIfChanged hwrite).2
  · next hwrite => exact Or.inl (touches_writeIfChanged hwrite).2
  · next e hwrite => exact Or.inr ⟨e, hwrite⟩

theorem touches_add (s : Emission) (a : Artifact) :
    Touches (· = a.path) s.tree (s.add a).tree := by
  rcases add_cases s a with ⟨htouches, -⟩ | ⟨htree, -⟩
  · exact htouches
  · rw [htree]
    exact .refl _ _

theorem touches_foldl (artifacts : List Artifact) (s : Emission) :
    Touches (· ∈ artifacts.map (·.path)) s.tree (artifacts.foldl add s).tree := by
  induction artifacts generalizing s with
  | nil => exact .refl _ _
  | cons a rest ih =>
      have hfirst : Touches (· ∈ (a :: rest).map (·.path)) s.tree (s.add a).tree :=
        (touches_add s a).mono fun p hp => hp ▸ List.mem_cons_self
      exact hfirst.trans ((ih (s.add a)).mono fun p hp => List.mem_cons_of_mem _ hp)

/-- Artifacts that are held are left alone. -/
theorem foldl_of_holds {artifacts : List Artifact} {s : Emission}
    (h : ∀ a ∈ artifacts, s.tree.Holds a.path a.contents) :
    (artifacts.foldl add s).tree = s.tree ∧ (artifacts.foldl add s).complete = s.complete := by
  induction artifacts generalizing s with
  | nil => exact ⟨rfl, rfl⟩
  | cons a rest ih =>
      have hwrite := writeIfChanged_of_holds (h a List.mem_cons_self)
      have htree : (s.add a).tree = s.tree := by
        unfold add
        rw [hwrite]
      have hcomplete : (s.add a).complete = s.complete := by
        unfold add
        rw [hwrite]
      have hrest : ∀ b ∈ rest, (s.add a).tree.Holds b.path b.contents := by
        intro b hb
        rw [htree]
        exact h b (List.mem_cons_of_mem _ hb)
      obtain ⟨htree', hcomplete'⟩ := ih hrest
      exact ⟨htree'.trans htree, hcomplete'.trans hcomplete⟩

/-- Where the artifacts go hangs on the tree alone. -/
theorem foldl_agree {artifacts : List Artifact} {s s' : Emission} (htree : s.tree = s'.tree)
    (hcomplete : s.complete = s'.complete) :
    (artifacts.foldl add s).tree = (artifacts.foldl add s').tree ∧
      (artifacts.foldl add s).complete = (artifacts.foldl add s').complete := by
  induction artifacts generalizing s s' with
  | nil => exact ⟨htree, hcomplete⟩
  | cons a rest ih =>
      apply ih
      · unfold add
        rw [htree]
        split <;> rfl
      · unfold add
        rw [htree]
        split <;> first | exact hcomplete | rfl

/-- When all artifacts could be put in place, every one of them is held in the end. -/
theorem holds_of_complete {artifacts : List Artifact} {s : Emission}
    (hapart : (artifacts.map (·.path)).Pairwise Apart)
    (h : (artifacts.foldl add s).complete = true) :
    s.complete = true ∧
      ∀ a ∈ artifacts, (artifacts.foldl add s).tree.Holds a.path a.contents := by
  induction artifacts generalizing s with
  | nil => exact ⟨h, fun a ha => absurd ha List.not_mem_nil⟩
  | cons a rest ih =>
      obtain ⟨hfirst, hpairwise⟩ := List.pairwise_cons.mp hapart
      obtain ⟨hcomplete, hrest⟩ := ih hpairwise h
      rcases add_cases s a with ⟨-, hholds, hsame, -⟩ | ⟨-, hfailed, -⟩
      · refine ⟨hsame ▸ hcomplete, fun b hb => ?_⟩
        rcases List.mem_cons.mp hb with rfl | hb
        · -- the artifacts after this one lead elsewhere
          exact hholds.of_touches (touches_foldl rest (s.add b)) hfirst
        · exact hrest b hb
      · rw [hfailed] at hcomplete
        cases hcomplete

/-- Without a failure all artifacts were put in place. -/
theorem complete_of_failures {artifacts : List Artifact} {s : Emission}
    (h : (artifacts.foldl add s).summary.failures = 0) :
    s.summary.failures = 0 ∧ (artifacts.foldl add s).complete = s.complete := by
  induction artifacts generalizing s with
  | nil => exact ⟨h, rfl⟩
  | cons a rest ih =>
      obtain ⟨hfailures, hcomplete⟩ := ih h
      rcases add_cases s a with ⟨-, -, hsame, hcount⟩ | ⟨-, -, hcount⟩
      · exact ⟨hcount ▸ hfailures, hcomplete.trans hsame⟩
      · rw [hcount] at hfailures
        cases hfailures

end Emission

end Build

end Registrar
