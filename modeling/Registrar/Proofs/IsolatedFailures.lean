import Registrar.Proofs.AddedHeaders

/-!
# Failures that stay alone

Two builds run side by side, one of a tree and one of the tree with a header more that cannot be
parsed. Every change that the first makes the second makes too, as long as the paths that a build
follows come by nothing that came with the header (`Build.Project.Avoids`). So the trees that they
leave differ as the first two do, and the second build counts one header and one failure more
(`Build.Project.failure_isolated`).

A cache may list any paths as artifacts. When it lists the path of the new header, an entry looks
unchanged that did not before.
-/

namespace Registrar

open FileTree (Beside Bypasses)

/-- The summary of a build that found one header more and could not parse it. -/
def Summary.withFailed (s : Summary) : Summary :=
  { s with headers := s.headers + 1, failures := s.failures + 1 }

variable {tree grown a b : FileTree}

namespace BuildCache

variable {cache : BuildCache} {file : Path}

theorem load_beside (h : Beside tree grown a b) (hfile : Bypasses tree grown file) :
    load b file = load a file := by
  unfold load
  rw [h.readText_eq hfile]

theorem isUnchanged_beside {header : Path} {modified : Moment} (h : Beside tree grown a b)
    (hlisted : ∀ entry, cache.get? header = some entry → ∀ q ∈ entry.artifacts,
      Bypasses tree grown q) :
    cache.isUnchanged b header modified = cache.isUnchanged a header modified := by
  unfold isUnchanged
  cases hentry : cache.get? header with
  | none => rfl
  | some entry =>
      have hall : entry.artifacts.all b.contains = entry.artifacts.all a.contains := by
        rw [Bool.eq_iff_iff, List.all_eq_true, List.all_eq_true]
        exact forall₂_congr fun q hq => by rw [h.contains_eq (hlisted entry hentry q hq)]
      dsimp only
      rw [hall]

/-- Which entries are kept hangs on the headers that have one. -/
theorem filter_congr {keep keep' : Path → Bool}
    (h : ∀ header entry, cache.get? header = some entry → keep header = keep' header) :
    (cache.entries.filter fun header _ => keep header) =
      cache.entries.filter fun header _ => keep' header := by
  apply Dict.ext_get?
  intro header
  rw [Dict.get?_filter, Dict.get?_filter]
  cases hentry : cache.entries.get? header with
  | none => split <;> split <;> rfl
  | some entry => rw [h header entry hentry]

/-- Both trees get the cache, or neither does. -/
theorem save_beside (h : Beside tree grown a b) (hfile : Bypasses tree grown file) :
    Beside tree grown (cache.save a file).1 (cache.save b file).1 := by
  obtain ⟨htrees, hresult⟩ := h.makeHome hfile
  unfold save
  generalize a.makeHome file = ma, b.makeHome file = mb at htrees hresult ⊢
  obtain ⟨made, result⟩ := ma
  obtain ⟨made', result'⟩ := mb
  obtain rfl : result' = result := hresult
  cases result' with
  | error e => exact htrees
  | ok done =>
      have hwrite := Beside.writeFile htrees hfile (Utf8.encode cache.write)
      dsimp only at hwrite
      rcases hwrite with ⟨⟨e, ha⟩, e', hb⟩ | ⟨wa, wb, ha, hb, hwritten⟩
      · simp only [FileTree.writeText, ha, hb]
        exact htrees
      · simp only [FileTree.writeText, ha, hb]
        exact hwritten

end BuildCache

namespace Build

/-! ## Artifacts side by side -/

/-- Both trees get a text at a path, or neither does. -/
theorem writeText_beside {q : Path} (h : Beside tree grown a b) (hq : Bypasses tree grown q)
    (t : Text) :
    ((∃ e, orWriteError q (a.writeText q t) = .error e) ∧
        ∃ e, orWriteError q (b.writeText q t) = .error e) ∨
      ∃ a' b', orWriteError q (a.writeText q t) = .ok a' ∧
        orWriteError q (b.writeText q t) = .ok b' ∧ Beside tree grown a' b' := by
  unfold FileTree.writeText
  rcases h.writeFile hq (Utf8.encode t) with ⟨⟨e, ha⟩, e', hb⟩ | ⟨a', b', ha, hb, hwritten⟩
  · rw [ha, hb]
    exact Or.inl ⟨⟨_, rfl⟩, _, rfl⟩
  · rw [ha, hb]
    exact Or.inr ⟨a', b', rfl, rfl, hwritten⟩

theorem writeIfChanged_beside {x : Artifact} (h : Beside tree grown a b)
    (hpath : Bypasses tree grown x.path) :
    ((∃ e, writeIfChanged a x = .error e) ∧ ∃ e, writeIfChanged b x = .error e) ∨
      ∃ a' b' changed, writeIfChanged a x = .ok (a', changed) ∧
        writeIfChanged b x = .ok (b', changed) ∧ Beside tree grown a' b' := by
  have hwrite := writeText_beside h hpath x.contents
  unfold writeIfChanged
  rw [h.readFile_eq hpath]
  dsimp only
  generalize orWriteError x.path (a.writeText x.path x.contents) = wa,
    orWriteError x.path (b.writeText x.path x.contents) = wb at hwrite ⊢
  have hwritten : ((∃ e, wa.map (·, true) = .error e) ∧ ∃ e, wb.map (·, true) = .error e) ∨
      ∃ a' b' changed, wa.map (·, true) = .ok (a', changed) ∧
        wb.map (·, true) = .ok (b', changed) ∧ Beside tree grown a' b' := by
    rcases hwrite with ⟨⟨e, rfl⟩, e', rfl⟩ | ⟨a', b', rfl, rfl, hbeside⟩
    · exact Or.inl ⟨⟨e, rfl⟩, e', rfl⟩
    · exact Or.inr ⟨a', b', true, rfl, rfl, hbeside⟩
  split
  · split
    · exact Or.inr ⟨a, b, false, rfl, rfl, h⟩
    · exact hwritten
  · exact hwritten

/-- Artifacts on their way in two builds, of which the second has one failure more. -/
structure Emission.Paired (tree grown : FileTree) (s s' : Emission) : Prop where
  trees : Beside tree grown s.tree s'.tree
  summary : s'.summary = s.summary.withFailed
  complete : s'.complete = s.complete

theorem Emission.Paired.add {s s' : Emission} {x : Artifact} (h : Emission.Paired tree grown s s')
    (hpath : Bypasses tree grown x.path) : Emission.Paired tree grown (s.add x) (s'.add x) := by
  obtain ⟨htrees, hsummary, hcomplete⟩ := h
  unfold Emission.add
  rcases writeIfChanged_beside htrees hpath with ⟨⟨e, ha⟩, e', hb⟩ |
    ⟨a', b', changed, ha, hb, hbeside⟩
  · rw [ha, hb]
    refine ⟨htrees, ?_, rfl⟩
    rw [hsummary]
    rfl
  · rw [ha, hb]
    cases changed with
    | true =>
        refine ⟨hbeside, ?_, hcomplete⟩
        rw [hsummary]
        rfl
    | false =>
        refine ⟨hbeside, ?_, hcomplete⟩
        rw [hsummary]
        rfl

theorem Emission.Paired.foldl {s s' : Emission} {artifacts : List Artifact}
    (h : Emission.Paired tree grown s s') (hpaths : ∀ x ∈ artifacts, Bypasses tree grown x.path) :
    Emission.Paired tree grown (artifacts.foldl Emission.add s)
      (artifacts.foldl Emission.add s') := by
  induction artifacts generalizing s s' with
  | nil => exact h
  | cons x rest ih =>
      obtain ⟨hx, hrest⟩ := List.forall_mem_cons.mp hpaths
      exact ih (h.add hx) hrest

/-! ## Headers side by side -/

/-- Two builds on their way through the same headers, of which the second has one failure more. The
artifacts that the cache lists are clear of what is new. -/
structure Progress.Paired (tree grown : FileTree) (s s' : Progress) : Prop where
  trees : Beside tree grown s.tree s'.tree
  summary : s'.summary = s.summary.withFailed
  cache : s'.cache = s.cache
  files : s'.files = s.files
  listed : ∀ header entry, s.cache.get? header = some entry → ∀ q ∈ entry.artifacts,
    Bypasses tree grown q

namespace Plan

variable {p p' : Plan} {s s' : Progress} {h : ParsedHeader} {header : Path} {force : Bool}

/-- The artifacts of the parsed headers are clear of what is new. -/
def ArtifactsBypass (p : Plan) (tree grown : FileTree) : Prop :=
  ∀ h ∈ p.batch.parsed, ∀ e ∈ h.entity, ∀ q ∈ Artifact.paths e p.layout.generatedOut,
    Bypasses tree grown q

theorem OneMore.step_eq (hmore : p.OneMore p' header) : p'.step force = p.step force := by
  unfold step
  rw [hmore.graph, hmore.layout]

theorem paired_counted (hpaired : Progress.Paired tree grown s s') (e : Entity) :
    Progress.Paired tree grown (p.counted s e) (p.counted s' e) where
  trees := hpaired.trees
  summary := by
    show { s'.summary with entities := s'.summary.entities + 1 } = _
    rw [hpaired.summary]
    rfl
  cache := hpaired.cache
  files := by
    show s'.files ++ _ = s.files ++ _
    rw [hpaired.files]
  listed := hpaired.listed

theorem paired_render {e : Entity}
    (hpaths : ∀ q ∈ Artifact.paths e p.layout.generatedOut, Bypasses tree grown q)
    (hpaired : Progress.Paired tree grown s s') :
    Progress.Paired tree grown (s.render p.graph p.layout.generatedOut h e)
      (s'.render p.graph p.layout.generatedOut h e) := by
  have hemission : Emission.Paired tree grown (p.emission s h e) (p.emission s' h e) :=
    Emission.Paired.foldl ⟨hpaired.trees, hpaired.summary, rfl⟩
      fun x hx => hpaths x.path (path_mem_paths hx)
  rw [render_eq, render_eq]
  refine ⟨hemission.trees, hemission.summary, ?_, hpaired.files, fun header entry hentry => ?_⟩
  · dsimp only
    rw [hemission.complete, hpaired.cache]
  · dsimp only at hentry
    split at hentry
    · rw [BuildCache.get?_record] at hentry
      split at hentry
      · cases hentry
        exact hpaths
      · exact hpaired.listed header entry hentry
    · exact hpaired.listed header entry hentry

/-- A header is left alone in both builds, or rendered in both. -/
theorem paired_step (hartifacts : p.ArtifactsBypass tree grown) (hmem : h ∈ p.batch.parsed)
    (hpaired : Progress.Paired tree grown s s') :
    Progress.Paired tree grown (p.step force s h) (p.step force s' h) := by
  cases he : h.entity with
  | none =>
      rw [step_of_none force he, step_of_none force he]
      exact hpaired
  | some e =>
      have hcounted : Progress.Paired tree grown (p.counted s e) (p.counted s' e) :=
        paired_counted hpaired e
      have hunchanged : s'.cache.isUnchanged s'.tree h.path h.modified =
          s.cache.isUnchanged s.tree h.path h.modified := by
        rw [hpaired.cache]
        exact BuildCache.isUnchanged_beside hpaired.trees (hpaired.listed h.path)
      cases hskip : !force && s.cache.isUnchanged s.tree h.path h.modified with
      | true =>
          obtain ⟨hforce, hsame⟩ := Bool.and_eq_true_iff.mp hskip
          obtain rfl : force = false := by simpa using hforce
          rw [step_of_unchanged he hsame, step_of_unchanged he (hunchanged.trans hsame)]
          refine ⟨hcounted.trees, ?_, hcounted.cache, hcounted.files, hcounted.listed⟩
          dsimp only
          rw [hcounted.summary, hpaired.summary]
          rfl
      | false =>
          rw [step_of_changed he hskip, step_of_changed he (by rw [hunchanged]; exact hskip)]
          exact paired_render (hartifacts h hmem e he) hcounted

theorem paired_pass {hs : List ParsedHeader} (hartifacts : p.ArtifactsBypass tree grown)
    (hsub : hs ⊆ p.batch.parsed) (hpaired : Progress.Paired tree grown s s') :
    Progress.Paired tree grown (p.pass force hs s) (p.pass force hs s') := by
  induction hs generalizing s s' with
  | nil => exact hpaired
  | cons h rest ih =>
      obtain ⟨hmem, hrest⟩ := List.cons_subset.mp hsub
      exact ih hrest (paired_step hartifacts hmem hpaired)

/-! ## Cleaning up side by side -/

/-- Both trees lose a stale file, or neither does. -/
theorem removeStale_beside {files : List Path} {q : Path} (log log' : List Text)
    (h : Beside tree grown a b) (hq : Bypasses tree grown q) :
    Beside tree grown (removeStale files (a, log) q).1 (removeStale files (b, log') q).1 := by
  unfold removeStale
  dsimp only
  split
  · exact h
  · rcases h.removeFile hq with ⟨e, ha, hb⟩ | ⟨a', b', ha, hb, hremoved⟩
    · rw [ha, hb]
      cases e <;> exact h
    · rw [ha, hb]
      exact hremoved

theorem removeStale_foldl_beside {files stale : List Path} {log log' : List Text}
    (h : Beside tree grown a b) (hstale : ∀ q ∈ stale, Bypasses tree grown q) :
    Beside tree grown (stale.foldl (removeStale files) (a, log)).1
      (stale.foldl (removeStale files) (b, log')).1 := by
  induction stale generalizing a b log log' with
  | nil => exact h
  | cons q rest ih =>
      obtain ⟨hq, hrest⟩ := List.forall_mem_cons.mp hstale
      exact ih (removeStale_beside log log' h hq) hrest

/-- The headers that keep their entry are the same, but for the new one. -/
theorem OneMore.mem_live_iff (hmore : p.OneMore p' header) {other : Path} (hne : other ≠ header) :
    other ∈ liveHeaders p'.headers p'.batch.parsed ↔
      other ∈ liveHeaders p.headers p.batch.parsed := by
  obtain ⟨before, after, hheaders', hheaders⟩ := hmore.headers
  rw [mem_liveHeaders, mem_liveHeaders, hmore.parsed, hheaders, hheaders']
  refine and_congr_left fun _ => ?_
  simp [hne]

/-- An entry is stale in both builds or in neither, where the new header has none. -/
theorem OneMore.contains_live_eq (hmore : p.OneMore p' header) {cache : BuildCache}
    (hnone : cache.get? header = none) : ∀ other entry, cache.get? other = some entry →
      (liveHeaders p'.headers p'.batch.parsed).contains other =
        (liveHeaders p.headers p.batch.parsed).contains other := by
  intro other entry hentry
  have hne : other ≠ header := by
    rintro rfl
    cases hnone.symm.trans hentry
  rw [List.contains_eq_mem, List.contains_eq_mem, decide_eq_decide]
  exact hmore.mem_live_iff hne

theorem OneMore.stale_eq (hmore : p.OneMore p' header) {cache : BuildCache}
    (hnone : cache.get? header = none) :
    cache.stale (liveHeaders p'.headers p'.batch.parsed) =
      cache.stale (liveHeaders p.headers p.batch.parsed) := by
  have hlive := hmore.contains_live_eq hnone
  unfold BuildCache.stale
  rw [BuildCache.filter_congr fun other entry hentry => congrArg (!·) (hlive other entry hentry)]

theorem OneMore.prune_eq (hmore : p.OneMore p' header) {cache : BuildCache}
    (hnone : cache.get? header = none) :
    cache.prune (liveHeaders p'.headers p'.batch.parsed) =
      cache.prune (liveHeaders p.headers p.batch.parsed) := by
  unfold BuildCache.prune
  rw [BuildCache.filter_congr (hmore.contains_live_eq hnone)]

/-- Both builds clean up and save the cache. -/
theorem OneMore.paired_finished (hmore : p.OneMore p' header)
    (hpaired : Progress.Paired tree grown s s') (hnone : s.cache.get? header = none)
    (hcache : Bypasses tree grown p.layout.cacheFile) :
    Beside tree grown (p.finished s).tree (p'.finished s').tree := by
  have hstale : ∀ q ∈ (s.cache.stale (liveHeaders p.headers p.batch.parsed)).flatMap
      (·.artifacts), Bypasses tree grown q := by
    intro q hq
    obtain ⟨entry, hentry, hlisted⟩ := List.mem_flatMap.mp hq
    obtain ⟨owner, hget⟩ := BuildCache.exists_get?_of_mem_stale hentry
    exact hpaired.listed owner entry hget q hlisted
  unfold finished Progress.finish
  dsimp only
  rw [hpaired.cache, hpaired.files, hmore.stale_eq hnone, hmore.prune_eq hnone, hmore.layout]
  exact BuildCache.save_beside (removeStale_foldl_beside hpaired.trees hstale) hcache

end Plan

/-! ## Project files side by side -/

theorem patch_beside {q : Path} (edit : Text → Option Text) (h : Beside tree grown a b)
    (hq : Bypasses tree grown q) :
    ((∃ e, patch a q edit = .error e) ∧ ∃ e, patch b q edit = .error e) ∨
      ∃ a' b' changed, patch a q edit = .ok (a', changed) ∧ patch b q edit = .ok (b', changed) ∧
        Beside tree grown a' b' := by
  unfold patch
  rw [h.readText_eq hq]
  cases a.readText q with
  | error e => exact Or.inl ⟨⟨_, rfl⟩, _, rfl⟩
  | ok t =>
      dsimp only [orReadError, Except.mapError, bind, Except.bind]
      cases edit t with
      | none => exact Or.inr ⟨a, b, false, rfl, rfl, h⟩
      | some patched =>
          rcases writeText_beside h hq patched with ⟨⟨e, ha⟩, e', hb⟩ | ⟨a', b', ha, hb, hwritten⟩
          · dsimp only
            rw [ha, hb]
            exact Or.inl ⟨⟨e, rfl⟩, e', rfl⟩
          · dsimp only
            rw [ha, hb]
            exact Or.inr ⟨a', b', true, rfl, rfl, hwritten⟩

theorem patchProject_beside {project : Path} (files : List Path) (h : Beside tree grown a b)
    (hproject : Bypasses tree grown project) :
    Beside tree grown (patchProject a project files).tree (patchProject b project files).tree := by
  unfold patchProject
  rcases patch_beside (fun t => ProjectFile.addItems? t (projectDir project) files) h hproject with
    ⟨⟨e, ha⟩, e', hb⟩ | ⟨a', b', changed, ha, hb, hpatched⟩
  · rw [ha, hb]
    exact h
  · rw [ha, hb]
    exact hpatched

theorem patchFilters_beside {filters : Path} (dir : Path) (files : List Path)
    (h : Beside tree grown a b) (hfilters : Bypasses tree grown filters) :
    Beside tree grown (patchFilters a filters dir files).tree
      (patchFilters b filters dir files).tree := by
  unfold patchFilters
  rw [h.contains_eq hfilters]
  split
  · rcases patch_beside (fun t => ProjectFile.addFilters? t dir files) h hfilters with
      ⟨⟨e, ha⟩, e', hb⟩ | ⟨a', b', changed, ha, hb, hpatched⟩
    · rw [ha, hb]
      exact h
    · rw [ha, hb]
      exact hpatched
  · exact h

theorem updateProject_beside {layout : Layout} (files : List Path) (h : Beside tree grown a b)
    (hfiles : ∀ q, layout.project = some q ∨ layout.filters = some q → Bypasses tree grown q) :
    Beside tree grown (updateProject a layout files).1 (updateProject b layout files).1 := by
  unfold updateProject
  cases hproject : layout.project with
  | none => exact h
  | some project =>
      have hlisted := patchProject_beside files h (hfiles project (Or.inl hproject))
      cases hfilters : layout.filters with
      | none => exact hlisted
      | some filters =>
          exact patchFilters_beside _ files hlisted (hfiles filters (Or.inr hfilters))

/-! ## Builds side by side -/

/-- Builds that start side by side end side by side. -/
theorem Plan.OneMore.execute {p p' : Plan} {header : Path}
    (hmore : p.OneMore p' header) (hp : p.Regular) (hartifacts : p.ArtifactsBypass tree grown)
    (hstart : Progress.Paired tree grown (p.start a) (p'.start b))
    (hunknown : (p.start a).cache.get? header = none)
    (hcache : Bypasses tree grown p.layout.cacheFile)
    (hfiles : ∀ q, p.layout.project = some q ∨ p.layout.filters = some q → Bypasses tree grown q)
    (force : Bool) :
    (Build.execute b p' force).2.2 = (Build.execute a p force).2.2.withFailed ∧
      Beside tree grown (Build.execute a p force).1 (Build.execute b p' force).1 := by
  have hrendered : Progress.Paired tree grown (p.rendered a force) (p'.rendered b force) := by
    unfold Plan.rendered Plan.pass
    rw [hmore.step_eq, hmore.parsed]
    exact Plan.paired_pass hartifacts (List.Subset.refl _) hstart
  have hnone : (p.rendered a force).cache.get? header = none := by
    refine (Plan.get?_pass hp (List.Subset.refl _) ?_).trans hunknown
    rintro ⟨h, hmem, -, hpath, -⟩
    exact hmore.unparsed.2 h (hmore.parsed ▸ hmem) hpath
  rw [Plan.execute_summary, Plan.execute_summary]
  refine ⟨hrendered.summary, ?_⟩
  rw [Plan.execute_fst, Plan.execute_fst, hmore.layout, hrendered.files]
  exact updateProject_beside _ (hmore.paired_finished hrendered hnone hcache) hfiles

namespace Project

variable {pr : Project} {loc : Location} {header : Path}

/-- The paths that a build of the project follows, but for those of its headers, come by nothing
that two trees differ in: the paths of the settings, those of artifacts, and what the cache
lists. -/
structure Avoids (pr : Project) (tree grown : FileTree) : Prop where
  sourceRoot : Bypasses tree grown pr.layout.sourceRoot
  macroHeader : Bypasses tree grown pr.layout.macroHeader
  generatedOut : Bypasses tree grown pr.layout.generatedOut
  cacheFile : Bypasses tree grown pr.layout.cacheFile
  project : ∀ q, pr.layout.project = some q ∨ pr.layout.filters = some q → Bypasses tree grown q
  artifacts : (pr.plan tree).ArtifactsBypass tree grown
  listed : ∀ owner entry, (pr.cacheIn tree).get? owner = some entry → ∀ q ∈ entry.artifacts,
    Bypasses tree grown q

/-- The second build starts with one header and one failure more. -/
theorem paired_start (havoids : pr.Avoids tree grown)
    (hmore : (pr.plan tree).OneMore (pr.plan grown) header)
    (hmade : Beside tree grown (tree.makeDirs pr.layout.generatedOut).1 b) :
    Progress.Paired tree grown ((pr.plan tree).start (tree.makeDirs pr.layout.generatedOut).1)
      ((pr.plan grown).start b) where
  trees := hmade
  summary := by
    obtain ⟨before, after, hheaders', hheaders⟩ := hmore.headers
    unfold Plan.start Summary.withFailed
    dsimp only
    rw [hmore.failures, hheaders', hheaders]
    simp [Nat.add_assoc]
  cache := congrArg Prod.fst (BuildCache.load_beside hmade havoids.cacheFile)
  files := rfl
  listed := havoids.listed

/-- **A header that cannot be parsed changes nothing else.** Let a tree get a file more, and perhaps
directories for it, where the file is found as a header that cannot be read or parsed and that the
cache has no entry for, and let the paths that a build follows come by none of these. Then a build
has the same result as without the header, with one header and one failure more in its summary, and
makes the same changes to the tree. -/
theorem failure_isolated (hsettings : readSettings tree pr.settingsFile = .ok pr.settings)
    (hdir : settingsDir tree pr.settingsFile = pr.dir) (hgains : tree.Gains grown loc)
    (hentry : grown.EntryAt header loc) (hfound : header ∈ (pr.plan grown).headers)
    {err : BuildError}
    (hfails : ParsedHeader.read grown (readMacros grown pr.layout.macroHeader).1 header =
      .error err)
    (hunknown : (pr.cacheIn tree).get? header = none) (havoids : pr.Avoids tree grown)
    (force : Bool) :
    (generate grown pr.settingsFile force).result =
        (generate tree pr.settingsFile force).result.map Summary.withFailed ∧
      Beside tree grown (generate tree pr.settingsFile force).tree
        (generate grown pr.settingsFile force).tree := by
  have hmore : (pr.plan tree).OneMore (pr.plan grown) header :=
    plan_oneMore hgains havoids.sourceRoot havoids.macroHeader hentry hfound hfails
  obtain ⟨hsettings', hdir'⟩ := settings_of_gains hgains hsettings hdir
  obtain ⟨htrees, hresult⟩ :=
    (Beside.refl hgains.workingDir hgains.now).makeDirs havoids.generatedOut
  obtain ⟨hsummary, hbeside⟩ := hmore.execute (regular pr tree) havoids.artifacts
    (paired_start havoids hmore htrees) hunknown havoids.cacheFile havoids.project force
  rw [generate_eq hsettings hdir, generate_eq hsettings' hdir']
  generalize tree.makeDirs pr.layout.generatedOut = ma,
    grown.makeDirs pr.layout.generatedOut = mb at htrees hresult hsummary hbeside ⊢
  obtain ⟨made, result⟩ := ma
  obtain ⟨made', result'⟩ := mb
  obtain rfl : result' = result := hresult
  cases result' with
  | error e => exact ⟨rfl, htrees⟩
  | ok done => exact ⟨congrArg Except.ok hsummary, hbeside⟩

end Project

namespace Stray

open Family (seconds)

/-- A project with one class. -/
def project : Project :=
  Detour.project "Source"

/-- A cache that lists the given files for the class. -/
def cache (listed : List Path) : BuildCache :=
  BuildCache.empty.record "/w/Source/Foo.h" ⟨[], seconds 1, listed⟩

/-- The class and the cache. -/
def sources (listed : List Path) : FileTree :=
  ((Detour.sources "Source").addFile "/w/cache.json" (Utf8.encode (cache listed).write)
    (seconds 1)).1

/-- The path of a header that cannot be parsed. -/
def header : Path :=
  "/w/Source/Broken.h"

/-- The tree with the header. -/
def broken (listed : List Path) : FileTree :=
  ((sources listed).addFile header (Utf8.encode "UENUM(") (seconds 1)).1

/-- What is found below the source directory of a tree. -/
def collected (tree : FileTree) : List Path :=
  Discovery.collect tree ⟨project.layout.generatedOut, project.settings.excludeDirs⟩
    (tree.nodes.size + 1) project.layout.sourceRoot

/-- The header is new, is found beside the class, and cannot be parsed. The cache is read. -/
abbrev Looked (listed : List Path) : Prop :=
  ((sources listed).node? header = none ∧ (broken listed).now = (sources listed).now ∧
    (broken listed).locate header = .ok header ∧
    (broken listed).locate "/w/Source" = .ok "/w/Source") ∧
  (collected (sources listed) = Detour.direct ∧
    collected (broken listed) = header :: Detour.direct) ∧
  (((sources listed).makeDirs project.layout.generatedOut).2 = .ok () ∧
    ((broken listed).makeDirs project.layout.generatedOut).2 = .ok () ∧
    project.cacheIn (sources listed) = cache listed) ∧
  ParsedHeader.read (broken listed) (readMacros (broken listed) project.layout.macroHeader).1
    header = .error (.header header (.unbalanced .enum 0))

variable {listed : List Path}

theorem settings_sources (listed : List Path) :
    readSettings (sources listed) project.settingsFile = .ok project.settings ∧
      settingsDir (sources listed) project.settingsFile = project.dir := by
  have hfound := Detour.found_direct
  apply Project.settings_of_touches (FileTree.touches_addFile _ _ _ _) hfound.settings hfound.dir
  rintro q rfl
  exact Detour.apart_settings "Source" _ (Or.inr rfl)

theorem gains (h : Looked listed) : (sources listed).Gains (broken listed) header :=
  FileTree.gains_of_touches (FileTree.touches_addFile _ _ _ _) h.1.2.1 h.1.2.2.1 h.1.1

theorem found_sources (h : Looked listed) :
    project.Found (sources listed) Detour.direct :=
  ⟨(settings_sources listed).1, (settings_sources listed).2, h.2.2.1.1, h.2.1.1, by decide⟩

theorem found_broken (h : Looked listed) :
    project.Found (broken listed) (header :: Detour.direct) := by
  obtain ⟨hsettings, hdir⟩ := settings_sources listed
  obtain ⟨hsettings', hdir'⟩ := Project.settings_of_gains (gains h) hsettings hdir
  exact ⟨hsettings', hdir', h.2.2.1.2.1, h.2.1.2, by decide⟩

theorem mem_headers (h : Looked listed) : header ∈ (project.plan (broken listed)).headers := by
  rw [(found_broken h).headers_eq]
  exact List.mem_cons_self

theorem get?_cacheIn (h : Looked listed) :
    (project.cacheIn (sources listed)).get? header = none := by
  have hother : ("/w/Source/Foo.h" : Path) ≠ header := by decide
  rw [h.2.2.1.2.2, cache, BuildCache.get?_record, if_neg hother]
  rfl

theorem entryAt (h : Looked listed) : (broken listed).EntryAt header header :=
  ⟨"/w/Source", "Broken.h", "/w/Source", by decide, by decide, h.1.2.2.2, by decide⟩

/-- An artifact of the class. -/
def artifact : Path :=
  "/w/Generated/UFoo.generated.h"

theorem looked_artifact : Looked [artifact] := by
  decide +kernel

theorem avoids_artifact : project.Avoids (sources [artifact]) (broken [artifact]) := by
  have hartifacts : ∀ h ∈ (planOf (sources [artifact]) project.layout Detour.direct).batch.parsed,
      ∀ e ∈ h.entity, ∀ q ∈ Artifact.paths e project.layout.generatedOut,
        Bypasses (sources [artifact]) (broken [artifact]) q := by
    decide +kernel
  have hlisted : ∀ x ∈ (project.cacheIn (sources [artifact])).entries.entries,
      ∀ q ∈ x.2.artifacts, Bypasses (sources [artifact]) (broken [artifact]) q := by
    rw [looked_artifact.2.2.1.2.2]
    decide +kernel
  refine ⟨by decide +kernel, by decide +kernel, by decide +kernel, by decide +kernel, ?_, ?_, ?_⟩
  · rintro q (hq | hq) <;> cases hq
  · unfold Plan.ArtifactsBypass
    rw [(found_sources looked_artifact).plan_eq]
    exact hartifacts
  · intro owner entry hentry
    exact hlisted (owner, entry) (Dict.mem_entries_of_get? hentry)

/-- The cache lists an artifact of the class, which is not there. -/
theorem failure_isolated_artifact :
    (sources [artifact]).Gains (broken [artifact]) header ∧
      project.Avoids (sources [artifact]) (broken [artifact]) ∧
      (generate (broken [artifact]) project.settingsFile false).result =
        (generate (sources [artifact]) project.settingsFile false).result.map
          Summary.withFailed ∧
      Beside (sources [artifact]) (broken [artifact])
        (generate (sources [artifact]) project.settingsFile false).tree
        (generate (broken [artifact]) project.settingsFile false).tree := by
  have hlooked := looked_artifact
  obtain ⟨hsettings, hdir⟩ := settings_sources [artifact]
  exact ⟨gains hlooked, avoids_artifact, Project.failure_isolated hsettings hdir (gains hlooked)
    (entryAt hlooked) (mem_headers hlooked) hlooked.2.2.2 (get?_cacheIn hlooked) avoids_artifact
    false⟩

theorem looked_header : Looked [header] ∧
    (execute ((sources [header]).makeDirs project.layout.generatedOut).1
      (planOf (sources [header]) project.layout Detour.direct) false).2.2 =
        { headers := 1, entities := 1, written := 2 } ∧
    (execute ((broken [header]).makeDirs project.layout.generatedOut).1
      (planOf (broken [header]) project.layout (header :: Detour.direct)) false).2.2 =
        { headers := 2, entities := 1, failures := 1, skipped := 2 } := by
  decide +kernel

/-- **A header that the cache lists as an artifact is not alone.** It cannot be parsed and has no
entry, but once it is there the class looks unchanged and is not rendered any more. -/
theorem listed_header_stops_rendering :
    (sources [header]).Gains (broken [header]) header ∧
      (broken [header]).EntryAt header header ∧
      header ∈ (project.plan (broken [header])).headers ∧ header ≠ project.layout.macroHeader ∧
      ParsedHeader.read (broken [header])
        (readMacros (broken [header]) project.layout.macroHeader).1 header =
          .error (.header header (.unbalanced .enum 0)) ∧
      (project.cacheIn (sources [header])).get? header = none ∧
      (generate (sources [header]) project.settingsFile false).result =
        .ok { headers := 1, entities := 1, written := 2 } ∧
      (generate (broken [header]) project.settingsFile false).result =
        .ok { headers := 2, entities := 1, failures := 1, skipped := 2 } := by
  obtain ⟨hlooked, hsources, hbroken⟩ := looked_header
  refine ⟨gains hlooked, entryAt hlooked, mem_headers hlooked, by decide, hlooked.2.2.2,
    get?_cacheIn hlooked, ?_, ?_⟩
  · rw [((found_sources hlooked).generate_eq false).2, hsources]
  · rw [((found_broken hlooked).generate_eq false).2, hbroken]

end Stray

end Build

end Registrar
