import Registrar.Proofs.CacheEntries

/-!
# The artifacts of a build exist after it

Nothing that a build does takes a file away, but for the removal of stale files
(`FileTree.Retains`). An artifact of a header that is rendered is there after its turn, unless it
could not be written. One of a header that is left alone is there because the entry of the header
lists it (`Build.Project.Kept.entry_pass_eq`), and the files of the entry were looked for
(`Build.Plan.contains_step_or_unwritten`). The stale files are none of the artifacts, even where
headers share them, so all artifacts are there in the end
(`Build.Project.contains_artifact_or_unwritten`).
-/

namespace Registrar

open FileTree (Apart Touches)

namespace FileTree

variable {tree before after last : FileTree} {p : Path} {loc : Location}

/-! ## What exists -/

theorem contains_iff : tree.contains p = true ↔
    ∃ loc node, tree.locate p = .ok loc ∧ tree.node? loc = some node := by
  cases hloc : tree.locate p with
  | error e => simp [contains, find, hloc, bind, Except.bind]
  | ok loc =>
      cases hnode : tree.node? loc with
      | none => simp [contains, find, hloc, hnode, bind, Except.bind]
      | some node => simp [contains, find, hloc, hnode, bind, Except.bind]

theorem Stands.contains (h : tree.Stands p) : tree.contains p = true := by
  obtain ⟨loc, hloc⟩ := h.exists_locate
  obtain ⟨contents, modified, hnode⟩ := (stands_iff hloc).mp h
  exact contains_iff.mpr ⟨loc, _, hloc, hnode⟩

/-- What exists is there after a change of other paths. -/
theorem Touches.contains {touched : Path → Prop} (h : Touches touched before after)
    (hapart : ∀ q, touched q → Apart p q) (hp : before.contains p = true) :
    after.contains p = true := by
  obtain ⟨loc, node, hloc, hnode⟩ := contains_iff.mp hp
  have hafter := h.locate_eq hloc
  rcases h.frame loc with hsame | ⟨hnone, -⟩ | ⟨q, hq, hqloc⟩
  · exact contains_iff.mpr ⟨loc, node, hafter, hsame.trans hnode⟩
  · rw [hnone] at hnode
    cases hnode
  · exact absurd hqloc (hapart q hq after loc hafter)

/-- A change that takes nothing away: directories stay directories, and files stay files. -/
structure Retains (before after : FileTree) : Prop where
  workingDir : after.workingDir = before.workingDir
  dirs : ∀ loc, before.node? loc = some .directory → after.node? loc = some .directory
  files : ∀ loc contents modified, before.node? loc = some (.file contents modified) →
    ∃ contents modified, after.node? loc = some (.file contents modified)

namespace Retains

theorem refl (tree : FileTree) : Retains tree tree where
  workingDir := rfl
  dirs _ hloc := hloc
  files _ contents modified hloc := ⟨contents, modified, hloc⟩

theorem trans (h : Retains before after) (h' : Retains after last) : Retains before last where
  workingDir := h'.workingDir.trans h.workingDir
  dirs loc hloc := h'.dirs loc (h.dirs loc hloc)
  files loc contents modified hloc := by
    obtain ⟨contents, modified, hafter⟩ := h.files loc contents modified hloc
    exact h'.files loc contents modified hafter

theorem locate_eq (h : Retains before after) (hloc : before.locate p = .ok loc) :
    after.locate p = .ok loc :=
  locate_of_keeps h.workingDir h.dirs hloc

theorem contains (h : Retains before after) (hp : before.contains p = true) :
    after.contains p = true := by
  obtain ⟨loc, node, hloc, hnode⟩ := contains_iff.mp hp
  have hafter := h.locate_eq hloc
  cases node with
  | directory => exact contains_iff.mpr ⟨loc, _, hafter, h.dirs loc hnode⟩
  | file contents modified =>
      obtain ⟨contents, modified, hnode⟩ := h.files loc contents modified hnode
      exact contains_iff.mpr ⟨loc, _, hafter, hnode⟩

theorem stands (h : Retains before after) (hp : before.Stands p) : after.Stands p := by
  obtain ⟨loc, hloc⟩ := hp.exists_locate
  obtain ⟨contents, modified, hnode⟩ := (stands_iff hloc).mp hp
  exact (stands_iff (h.locate_eq hloc)).mpr (h.files loc contents modified hnode)

end Retains

/-- A change after which a file stands at every touched path takes nothing away. -/
theorem Touches.retains {touched : Path → Prop} (h : Touches touched before after)
    (hstands : ∀ q, touched q → after.Stands q) : Retains before after where
  workingDir := h.workingDir
  dirs := h.keeps
  files loc contents modified hloc := by
    rcases h.frame loc with hsame | ⟨hnone, -⟩ | ⟨q, hq, hqloc⟩
    · exact ⟨contents, modified, hsame.trans hloc⟩
    · rw [hnone] at hloc
      cases hloc
    · exact (FileTree.stands_iff hqloc).mp (hstands q hq)

end FileTree

open FileTree (Retains)

theorem BuildCache.contains_of_isUnchanged {cache : BuildCache} {tree : FileTree} {header : Path}
    {modified : Moment} (h : cache.isUnchanged tree header modified = true) :
    ∃ entry, cache.get? header = some entry ∧ entry.modified = modified ∧
      ∀ q ∈ entry.artifacts, tree.contains q = true := by
  unfold isUnchanged at h
  split at h
  · next entry hentry =>
    obtain ⟨htime, hall⟩ := Bool.and_eq_true_iff.mp h
    exact ⟨entry, hentry, of_decide_eq_true htime, List.all_eq_true.mp hall⟩
  · cases h

theorem BuildCache.retains_save (cache : BuildCache) (tree : FileTree) (file : Path) :
    Retains tree (cache.save tree file).1 := by
  rcases cache.save_cases tree file with ⟨-, hnothing⟩ | ⟨hwritten, hholds⟩
  · exact hnothing.retains fun q hq => hq.elim
  · exact hwritten.retains fun q hq => hq ▸ hholds.stands

namespace Build

/-! ## Steps that take nothing away -/

theorem Emission.retains_add (s : Emission) (a : Artifact) : Retains s.tree (s.add a).tree := by
  rcases add_cases s a with ⟨htouches, hholds, -⟩ | ⟨htree, -⟩
  · exact htouches.retains fun q hq => hq ▸ hholds.stands
  · rw [htree]
    exact .refl _

theorem Emission.retains_foldl (artifacts : List Artifact) (s : Emission) :
    Retains s.tree (artifacts.foldl add s).tree := by
  induction artifacts generalizing s with
  | nil => exact .refl _
  | cons a rest ih => exact (retains_add s a).trans (ih (s.add a))

theorem retains_patch {before after : FileTree} {p : Path} {edit : Text → Option Text}
    {changed : Bool} (h : patch before p edit = .ok (after, changed)) : Retains before after := by
  unfold patch at h
  cases hread : before.readText p with
  | error e =>
      rw [hread] at h
      cases h
  | ok t =>
      rw [hread] at h
      obtain ⟨found, hfound, h⟩ := Header.bind_eq_ok_iff.mp h
      cases hfound
      split at h
      · cases h
        exact .refl _
      · next patched _ =>
        cases hwrite : before.writeText p patched with
        | error e =>
            rw [hwrite] at h
            cases h
        | ok written =>
            rw [hwrite] at h
            cases h
            obtain ⟨htouches, hwritten⟩ := FileTree.touches_writeFile hwrite
            exact htouches.retains fun q hq => hq ▸ ⟨_, hwritten⟩

/-- Listing files in the project files takes nothing away. -/
theorem retains_updateProject (tree : FileTree) (layout : Layout) (files : List Path) :
    Retains tree (updateProject tree layout files).1 := by
  have hlisted : ∀ project, Retains tree (patchProject tree project files).tree := by
    intro project
    unfold patchProject
    split
    · next hpatch => exact retains_patch hpatch
    · exact .refl _
  unfold updateProject
  split
  · exact .refl _
  · next project _ =>
    dsimp only
    split
    · exact hlisted project
    · refine (hlisted project).trans ?_
      unfold patchFilters
      split
      · split
        · next hpatch => exact retains_patch hpatch
        · exact .refl _
      · exact .refl _

namespace Plan

variable {p : Plan} {tree : FileTree} {s : Progress} {h : ParsedHeader} {e : Entity}
  {force : Bool} {q : Path} {hs before after : List ParsedHeader}

theorem retains_step (p : Plan) (force : Bool) (s : Progress) (h : ParsedHeader) :
    Retains s.tree (p.step force s h).tree := by
  cases he : h.entity with
  | none =>
      rw [step_of_none force he]
      exact .refl _
  | some e =>
      rcases p.step_cases force s he with ⟨-, hstep⟩ | ⟨-, hstep⟩
      · rw [hstep]
        exact .refl _
      · rw [hstep]
        exact Emission.retains_foldl (p.rendering h e)
          ⟨(p.counted s e).tree, (p.counted s e).log, (p.counted s e).summary, true⟩

theorem retains_pass (p : Plan) (force : Bool) (hs : List ParsedHeader) (s : Progress) :
    Retains s.tree (p.pass force hs s).tree := by
  induction hs generalizing s with
  | nil => exact .refl _
  | cons h rest ih => exact (retains_step p force s h).trans (ih _)

/-! ## Artifacts after their turn -/

/-- An artifact exists after the step of its header, unless it could not be written. A header that
is left alone has an entry that lists it. -/
theorem contains_step_or_unwritten (hparsed : p.batch.parsed = before ++ h :: after)
    (he : h.entity = some e) (hq : q ∈ Artifact.paths e p.layout.generatedOut)
    (hlisted : ∀ entry, (p.pass force before (p.start tree)).cache.get? h.path = some entry →
      entry.modified = h.modified → q ∈ entry.artifacts) :
    (p.step force (p.pass force before (p.start tree)) h).tree.contains q = true ∨
      ∃ a, a.path = q ∧ p.Unwritten tree force h a := by
  rcases p.step_cases force (p.pass force before (p.start tree)) he with
    ⟨hunchanged, hstep⟩ | ⟨hskip, hstep⟩
  · left
    obtain ⟨entry, hentry, htime, hthere⟩ := BuildCache.contains_of_isUnchanged hunchanged
    rw [hstep]
    exact hthere q (hlisted entry hentry htime)
  · rw [← path_rendering p h e] at hq
    obtain ⟨a, ha, rfl⟩ := List.mem_map.mp hq
    obtain ⟨earlier, later, hrendering⟩ := List.append_of_mem ha
    rw [hstep]
    generalize hcounted : p.counted (p.pass force before (p.start tree)) e = counted
    rcases Emission.holds_add_or_error
      (earlier.foldl Emission.add ⟨counted.tree, counted.log, counted.summary, true⟩) a with
      hheld | ⟨err, herr⟩
    · left
      show (p.emission counted h e).tree.contains a.path = true
      unfold emission
      rw [hrendering, List.foldl_append, List.foldl_cons]
      exact (Emission.retains_foldl later _).contains hheld.stands.contains
    · right
      rw [← hcounted, tree_foldl_earlier] at herr
      exact ⟨a, rfl, before, earlier, err, ⟨⟨after, hparsed⟩, e, later, he, hrendering⟩, hskip,
        herr⟩

/-- What comes after the last header leaves what exists at a listed path. -/
theorem contains_finished (hlists : p.ListsArtifacts s.cache)
    (hq : Artifact.IsPath p.layout.generatedOut q) (hlisted : q ∈ s.files) (files : List Path)
    (hthere : s.tree.contains q = true) :
    (updateProject (p.finished s).tree p.layout files).1.contains q = true := by
  have hswept : (p.swept s).contains q = true := by
    refine (touches_removeStale_foldl s.files _ (s.tree, [])).contains (fun f hf => ?_) hthere
    obtain ⟨hstale, hnew⟩ := hf
    obtain ⟨entry, hentry, hartifact⟩ := List.mem_flatMap.mp hstale
    obtain ⟨header, hget⟩ := BuildCache.exists_get?_of_mem_stale hentry
    exact hq.apart (hlists header entry hget f hartifact) fun heq => hnew (heq ▸ hlisted)
  rw [finished_tree]
  exact (retains_updateProject _ _ _).contains ((BuildCache.retains_save _ _ _).contains hswept)

end Plan

namespace Project

variable {pr : Project} {tree : FileTree} {runs : List (FileTree × BuildCache)} {q : Path}

/-- After the last header every artifact exists, unless it could not be written. -/
theorem contains_rendered_or_unwritten (hkept : pr.Kept runs (pr.cacheIn tree))
    (hstamped : Stamped runs tree) (hq : (pr.plan tree).IsArtifact q) (force : Bool) :
    ((pr.plan tree).rendered (tree.makeDirs pr.layout.generatedOut).1 force).tree.contains q =
        true ∨
      ∃ h a, a.path = q ∧
        (pr.plan tree).Unwritten (tree.makeDirs pr.layout.generatedOut).1 force h a := by
  obtain ⟨_, h, hmem, e, -, he, hpath⟩ := hq
  obtain ⟨before, after, hparsed⟩ := List.append_of_mem hmem
  have hsub : before ⊆ (pr.plan tree).batch.parsed := by
    rw [hparsed]
    exact List.subset_append_left _ _
  rw [Plan.rendered_of_append hparsed]
  refine (Plan.contains_step_or_unwritten hparsed he hpath fun entry hentry htime => ?_).imp
    (Plan.retains_pass _ force after _).contains fun hunwritten => ⟨h, hunwritten⟩
  rw [hkept.entry_pass_eq hstamped hsub hmem he hentry htime]
  exact hpath

/-- At the end every artifact exists, unless it could not be written. -/
theorem contains_execute_or_unwritten (hkept : pr.Kept runs (pr.cacheIn tree))
    (hstamped : Stamped runs tree) (hq : (pr.plan tree).IsArtifact q) (force : Bool) :
    (execute (tree.makeDirs pr.layout.generatedOut).1 (pr.plan tree) force).1.contains q = true ∨
      ∃ h a, a.path = q ∧
        (pr.plan tree).Unwritten (tree.makeDirs pr.layout.generatedOut).1 force h a := by
  refine (contains_rendered_or_unwritten hkept hstamped hq force).imp_left fun hthere => ?_
  have hlists : (pr.plan tree).ListsArtifacts
      ((pr.plan tree).start (tree.makeDirs pr.layout.generatedOut).1).cache := hkept.saved.isPath
  rw [Plan.execute_fst]
  exact Plan.contains_finished (hlists.rendered (regular pr tree) force)
    ((regular pr tree).isPath hq) (Plan.mem_files_rendered_iff.mpr hq) _ hthere

/-- **All artifacts of a build exist after it.** Let the cache that a build finds be none, or one
that builds of the project have left, where a header with a recorded time is as it was when the time
was recorded; headers may share artifacts, and any artifacts may have been removed. After the build,
forced or not, every artifact of a parsed header exists, unless it could not be written, or the
output directory could not be made. -/
theorem contains_artifact_or_unwritten
    (hsettings : readSettings tree pr.settingsFile = .ok pr.settings)
    (hdir : settingsDir tree pr.settingsFile = pr.dir) (hkept : pr.Kept runs (pr.cacheIn tree))
    (hstamped : Stamped runs tree) (hq : (pr.plan tree).IsArtifact q) (force : Bool) :
    (generate tree pr.settingsFile force).tree.contains q = true ∨
      (∃ err, (generate tree pr.settingsFile force).result =
        .error (.write pr.layout.generatedOut err)) ∨
      ∃ h a, a.path = q ∧
        (pr.plan tree).Unwritten (tree.makeDirs pr.layout.generatedOut).1 force h a := by
  have hexecuted := contains_execute_or_unwritten hkept hstamped hq force
  rw [generate_eq hsettings hdir]
  cases hmade : tree.makeDirs pr.layout.generatedOut with
  | mk made result =>
      rw [hmade] at hexecuted
      cases result with
      | error err => exact Or.inr (Or.inl ⟨err, rfl⟩)
      | ok done => exact hexecuted.imp_right Or.inr

end Project

namespace Renaming

open Family (project)

theorem kept_renamed :
    project.Kept [(sources, project.cacheAfter sources false)] (project.cacheIn renamed) :=
  found_sources.kept cacheIn_sources cacheIn_renamed.1

theorem stamped_renamed :
    Project.Stamped [(sources, project.cacheAfter sources false)] renamed :=
  found_sources.stamped (by decide +kernel)

/-- The file of the class under its new name exists after the build. -/
theorem contains_artifact_renamed :
    readSettings renamed project.settingsFile = .ok project.settings ∧
      settingsDir renamed project.settingsFile = project.dir ∧
      project.Kept [(sources, project.cacheAfter sources false)] (project.cacheIn renamed) ∧
      Project.Stamped [(sources, project.cacheAfter sources false)] renamed ∧
      (project.plan renamed).IsArtifact newFile ∧
      (generate renamed project.settingsFile false).tree.contains newFile = true := by
  have hartifact : (project.plan renamed).IsArtifact newFile :=
    found_renamed.isArtifact_iff.mpr cacheIn_renamed.2
  refine ⟨found_renamed.settings, found_renamed.dir, kept_renamed, stamped_renamed, hartifact, ?_⟩
  rcases Project.contains_artifact_or_unwritten found_renamed.settings found_renamed.dir
    kept_renamed stamped_renamed hartifact false with hthere | ⟨err, herr⟩ | ⟨h, a, -, hunwritten⟩
  · exact hthere
  · rw [(found_renamed.generate_eq false).2] at herr
    cases herr
  · have hfailures : ((project.plan renamed).rendered
        (renamed.makeDirs project.layout.generatedOut).1 false).summary.failures = 0 := by
      rw [found_renamed.plan_eq, ← Plan.execute_summary]
      exact looked_renamed.1.2.2.2.2.2.1
    have hcounted := hunwritten.failures_lt
    rw [hfailures] at hcounted
    exact absurd hcounted (Nat.not_lt_zero _)

end Renaming

end Build

end Registrar
