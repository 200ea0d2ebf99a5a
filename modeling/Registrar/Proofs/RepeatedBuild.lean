import Registrar.Proofs.CurrentArtifacts
import Registrar.Proofs.HeaderOutlines
import Registrar.Proofs.HeaderSearch
import Registrar.Proofs.SameFiles

/-!
# Builds that have nothing to do

A build touches its artifacts and its cache file (`Build.Project.Completed.touches`), and none of
these is found as a header. So the next build knows the same of the headers (`Build.Plan.Alike`). It
finds the cache of the build before, in which every header with an entity is recorded with its time
and with files that exist, and nothing but live headers is recorded: it has nothing to do
(`Build.Project.idle_after_build`). All it does is to save the cache that it found
(`Build.Plan.Idle.saved_eq`), and no file changes (`Build.Project.repeated_build_is_idle`).

The directories that a build makes are the exception. A source root that leads through them to a
directory that was there before leads to headers in the second build only.
-/

namespace Registrar

open FileTree (Apart IsEntryName Touches)

namespace BuildCache

variable {cache : BuildCache} {live : List Path}

theorem isUnchanged_of_entry {tree : FileTree} {header : Path} {entry : CacheEntry}
    (hentry : cache.get? header = some entry)
    (hthere : ∀ q ∈ entry.artifacts, tree.contains q = true) :
    cache.isUnchanged tree header entry.modified = true := by
  unfold isUnchanged
  rw [hentry]
  exact Bool.and_eq_true_iff.mpr ⟨decide_eq_true rfl, List.all_eq_true.mpr hthere⟩

/-- A cache that remembers live headers only is not pruned. -/
theorem prune_of_live (h : ∀ header entry, cache.get? header = some entry → header ∈ live) :
    cache.prune live = cache := by
  obtain ⟨entries⟩ := cache
  refine congrArg BuildCache.mk (Dict.ext_get? fun header => Option.ext fun entry => ?_)
  exact get?_prune_eq_some_iff.trans (and_iff_right_of_imp (h header entry))

theorem stale_of_live (h : ∀ header entry, cache.get? header = some entry → header ∈ live) :
    cache.stale live = [] := by
  refine List.eq_nil_iff_forall_not_mem.mpr fun entry hmem => ?_
  obtain ⟨header, hdead, hentry⟩ := mem_stale_iff.mp hmem
  exact hdead (h header entry hentry)

end BuildCache

namespace Build

/-! ## What a build counts -/

theorem Emission.headers_foldl (artifacts : List Artifact) (s : Emission) :
    (artifacts.foldl add s).summary.headers = s.summary.headers ∧
      (artifacts.foldl add s).summary.entities = s.summary.entities := by
  have hadd : ∀ (s : Emission) (a : Artifact), (s.add a).summary.headers = s.summary.headers ∧
      (s.add a).summary.entities = s.summary.entities := by
    intro s a
    unfold add
    split <;> exact ⟨rfl, rfl⟩
  induction artifacts generalizing s with
  | nil => exact ⟨rfl, rfl⟩
  | cons a rest ih =>
      obtain ⟨hheaders, hentities⟩ := ih (s.add a)
      exact ⟨hheaders.trans (hadd s a).1, hentities.trans (hadd s a).2⟩

namespace Plan

variable {p : Plan} {tree : FileTree} {s : Progress} {h : ParsedHeader} {hs : List ParsedHeader}

theorem counts_step (p : Plan) (force : Bool) (s : Progress) (h : ParsedHeader) :
    (p.step force s h).summary.headers = s.summary.headers ∧
      (p.step force s h).summary.entities =
        s.summary.entities + if h.entity.isSome then 1 else 0 := by
  cases he : h.entity with
  | none =>
      rw [step_of_none force he]
      exact ⟨rfl, rfl⟩
  | some e =>
      rcases p.step_cases force s he with ⟨-, hstep⟩ | ⟨-, hstep⟩
      · rw [hstep]
        exact ⟨rfl, rfl⟩
      · rw [hstep]
        exact Emission.headers_foldl (p.rendering h e)
          ⟨(p.counted s e).tree, (p.counted s e).log, (p.counted s e).summary, true⟩

/-- A build counts the headers that it found and those that have an entity, whatever it renders. -/
theorem counts_pass (p : Plan) (force : Bool) (hs : List ParsedHeader) (s : Progress) :
    (p.pass force hs s).summary.headers = s.summary.headers ∧
      (p.pass force hs s).summary.entities =
        s.summary.entities + hs.countP (·.entity.isSome) := by
  induction hs generalizing s with
  | nil => exact ⟨rfl, rfl⟩
  | cons h rest ih =>
      obtain ⟨hheaders, hentities⟩ := ih (p.step force s h)
      obtain ⟨hheaders', hentities'⟩ := counts_step p force s h
      refine ⟨hheaders.trans hheaders', hentities.trans ?_⟩
      rw [hentities', List.countP_cons]
      omega

/-! ## Nothing to do -/

/-- A tree leaves a plan nothing to do: its cache remembers headers that keep their entries, and
every header with an entity is unchanged. -/
structure Idle (p : Plan) (tree : FileTree) : Prop where
  live : ∀ header entry, (p.start tree).cache.get? header = some entry →
    header ∈ liveHeaders p.headers p.batch.parsed
  unchanged : ∀ h ∈ p.batch.parsed, ∀ e, h.entity = some e →
    (p.start tree).cache.isUnchanged tree h.path h.modified = true

/-- Headers that are unchanged are left alone. -/
theorem pass_of_unchanged (hall : ∀ h ∈ hs, ∀ e, h.entity = some e →
      s.cache.isUnchanged s.tree h.path h.modified = true) :
    (p.pass false hs s).tree = s.tree ∧ (p.pass false hs s).cache = s.cache ∧
      (p.pass false hs s).summary.written = s.summary.written ∧
      (p.pass false hs s).summary.failures = s.summary.failures := by
  induction hs generalizing s with
  | nil => exact ⟨rfl, rfl, rfl, rfl⟩
  | cons h rest ih =>
      have hrest : ∀ g ∈ rest, ∀ e, g.entity = some e →
          s.cache.isUnchanged s.tree g.path g.modified = true :=
        fun g hg => hall g (List.mem_cons_of_mem _ hg)
      have hpass : p.pass false (h :: rest) s = p.pass false rest (p.step false s h) := rfl
      rw [hpass]
      cases he : h.entity with
      | none =>
          rw [step_of_none false he]
          exact ih hrest
      | some e =>
          rw [step_of_unchanged he (hall h List.mem_cons_self e he)]
          exact ih hrest

namespace Idle

theorem rendered (hidle : p.Idle tree) :
    (p.rendered tree false).tree = tree ∧
      (p.rendered tree false).cache = (p.start tree).cache ∧
      (p.rendered tree false).summary.written = 0 ∧
      (p.rendered tree false).summary.failures = p.batch.failures.length :=
  pass_of_unchanged (s := p.start tree) hidle.unchanged

/-- All that is left to do is to save the cache as it was found. -/
theorem saved_eq (hidle : p.Idle tree) :
    p.saved (p.rendered tree false) = (p.start tree).cache.save tree p.layout.cacheFile := by
  obtain ⟨htree, hcache, -⟩ := hidle.rendered
  unfold saved swept
  rw [hcache, BuildCache.stale_of_live hidle.live, BuildCache.prune_of_live hidle.live, htree]
  rfl

end Idle

/-! ## Plans that know the same -/

/-- Two plans know the same of the headers, whatever the macros say. -/
structure Alike (p p' : Plan) : Prop where
  layout : p'.layout = p.layout
  headers : p'.headers = p.headers
  outlines : p'.batch.parsed.map ParsedHeader.outline = p.batch.parsed.map ParsedHeader.outline
  failures : p'.batch.failures = p.batch.failures

namespace Alike

variable {p' : Plan} {h' : ParsedHeader} {e' : Entity}

/-- A header with an entity is recorded the same by both plans. -/
theorem exists_header (halike : p.Alike p') (hmem : h' ∈ p'.batch.parsed)
    (he : h'.entity = some e') :
    ∃ h ∈ p.batch.parsed, ∃ e, h.entity = some e ∧ h.path = h'.path ∧
      p.entry h e = p'.entry h' e' := by
  have houtline : h'.outline ∈ p.batch.parsed.map ParsedHeader.outline :=
    halike.outlines ▸ List.mem_map_of_mem hmem
  obtain ⟨h, hmem, houtline⟩ := List.mem_map.mp houtline
  obtain ⟨hpath, hhash, hmodified, hidentity⟩ := ParsedHeader.Outline.mk.inj houtline
  rw [he] at hidentity
  obtain ⟨e, he, hsame⟩ := Option.map_eq_some_iff.mp hidentity
  obtain ⟨hname, hkind⟩ := Prod.mk.inj hsame
  refine ⟨h, hmem, e, he, hpath, ?_⟩
  unfold entry
  rw [hhash, hmodified, halike.layout, Artifact.paths_congr hname hkind]

theorem countP_eq (halike : p.Alike p') :
    p'.batch.parsed.countP (·.entity.isSome) = p.batch.parsed.countP (·.entity.isSome) := by
  have hcount : ∀ hs : List ParsedHeader, hs.countP (·.entity.isSome) =
      (hs.map ParsedHeader.outline).countP (·.identity.isSome) := by
    intro hs
    rw [List.countP_map]
    refine List.countP_congr fun h _ => ?_
    show h.entity.isSome = true ↔ (h.entity.map Entity.identity).isSome = true
    rw [Option.isSome_map]
  rw [hcount, hcount, halike.outlines]

/-- Builds of both plans count the same headers and entities. -/
theorem counts_eq (halike : p.Alike p') (tree tree' : FileTree) (force force' : Bool) :
    (p'.rendered tree' force').summary.headers = (p.rendered tree force).summary.headers ∧
      (p'.rendered tree' force').summary.entities = (p.rendered tree force).summary.entities := by
  obtain ⟨hheaders, hentities⟩ := counts_pass p force p.batch.parsed (p.start tree)
  obtain ⟨hheaders', hentities'⟩ := counts_pass p' force' p'.batch.parsed (p'.start tree')
  constructor
  · exact hheaders'.trans ((congrArg List.length halike.headers).trans hheaders.symm)
  · exact hentities'.trans ((congrArg (0 + ·) halike.countP_eq).trans hentities.symm)

theorem liveHeaders_eq (halike : p.Alike p') :
    liveHeaders p'.headers p'.batch.parsed = liveHeaders p.headers p.batch.parsed := by
  have hdead : ∀ hs : List ParsedHeader, (hs.filter (·.entity.isNone)).map (·.path) =
      ((hs.map ParsedHeader.outline).filter (·.identity.isNone)).map (·.path) := by
    intro hs
    have hnone : ∀ h ∈ hs, h.entity.isNone = h.outline.identity.isNone :=
      fun h _ => Option.isNone_map.symm
    rw [List.filter_map, List.map_map, List.filter_congr hnone]
    rfl
  unfold liveHeaders
  rw [hdead, hdead, halike.outlines, halike.headers]

end Alike

end Plan

namespace Project

variable {pr : Project} {tree after : FileTree} {runs : List (FileTree × BuildCache)} {force : Bool}
  {summary : Summary} {touched : Path → Prop}

/-- A build of a changed tree knows the same of the headers when the change touches none of them. -/
theorem alike_of_touches (htouches : Touches touched tree after)
    (hway : ∀ loc, after.locate pr.layout.sourceRoot = .ok loc →
      tree.node? loc = some .directory → tree.locate pr.layout.sourceRoot = .ok loc)
    (hquiet : Discovery.Quiet touched after (pr.plan after).headers) :
    (pr.plan tree).Alike (pr.plan after) := by
  have hheaders : (pr.plan after).headers = (pr.plan tree).headers :=
    Discovery.headers_of_touches htouches hway hquiet
  have hread : ∀ path ∈ (pr.plan tree).headers, after.readFile path = tree.readFile path :=
    fun path hmem => Discovery.readFile_of_touches htouches hquiet (List.mem_mergeSort.mp hmem)
      (hheaders ▸ hmem)
  obtain ⟨houtlines, hfailures⟩ := Batch.outline_read hread
    (readMacros tree pr.layout.macroHeader).1 (readMacros after pr.layout.macroHeader).1
  have hbatch : (pr.plan after).batch = Batch.read after
      (readMacros after pr.layout.macroHeader).1 (pr.plan tree).headers := by
    rw [← hheaders]
    rfl
  refine ⟨rfl, hheaders, ?_, ?_⟩
  · rw [hbatch]
    exact houtlines
  · rw [hbatch]
    exact hfailures

/-! ## The tree after a build -/

/-- Without project files a build ends with its cache. -/
theorem tree_of_ok (hsettings : readSettings tree pr.settingsFile = .ok pr.settings)
    (hdir : settingsDir tree pr.settingsFile = pr.dir)
    (hproject : pr.settings.projectFiles = none)
    (hresult : (generate tree pr.settingsFile force).result = .ok summary) :
    (generate tree pr.settingsFile force).tree = ((pr.plan tree).saved
      ((pr.plan tree).rendered (tree.makeDirs pr.layout.generatedOut).1 force)).1 := by
  have hnone : (pr.plan tree).layout.project = none := by
    show pr.settings.projectFiles.map _ = none
    rw [hproject]
    rfl
  rw [(generate_of_ok hsettings hdir hresult).2.1, Plan.execute_fst, Plan.finished_tree]
  unfold updateProject
  rw [hnone]

/-- A build of a project without project files gets to its end and saves its cache. -/
structure Completed (pr : Project) (tree : FileTree) (force : Bool) (summary : Summary) :
    Prop where
  settings : readSettings tree pr.settingsFile = .ok pr.settings
  dir : settingsDir tree pr.settingsFile = pr.dir
  project : pr.settings.projectFiles = none
  result : (generate tree pr.settingsFile force).result = .ok summary
  saved : ((pr.plan tree).saved ((pr.plan tree).rendered
    (tree.makeDirs pr.layout.generatedOut).1 force)).2 = .ok ()

namespace Completed

theorem tree_eq (hdone : pr.Completed tree force summary) :
    (generate tree pr.settingsFile force).tree = ((pr.plan tree).saved
      ((pr.plan tree).rendered (tree.makeDirs pr.layout.generatedOut).1 force)).1 :=
  tree_of_ok hdone.settings hdone.dir hdone.project hdone.result

/-- The build touches nothing but paths of artifacts and the cache file. -/
theorem touches (hdone : pr.Completed tree force summary) (hfound : pr.Saved (pr.cacheIn tree)) :
    Touches (fun q => Artifact.IsPath pr.layout.generatedOut q ∨ q = pr.layout.cacheFile)
      tree (generate tree pr.settingsFile force).tree := by
  have hnone : pr.layout.project = none ∧ pr.layout.filters = none := by
    constructor <;>
    · show pr.settings.projectFiles.map _ = none
      rw [hdone.project]
      rfl
  have hmade := FileTree.touches_makeDirs tree pr.layout.generatedOut
  rw [(generate_of_ok hdone.settings hdone.dir hdone.result).2.1]
  refine (hmade.mono fun _ hq => hq.elim).trans
    ((touches_execute pr tree force).mono fun q hq => ?_)
  rcases hq with hartifact | ⟨header, entry, hentry, -, hlisted⟩ | hcache | hproject | hfilters
  · exact Or.inl ((regular pr tree).isPath hartifact)
  · exact Or.inl (hfound.isPath header entry hentry q hlisted)
  · exact Or.inr hcache
  · rw [hnone.1] at hproject
    cases hproject
  · rw [hnone.2] at hfilters
    cases hfilters

/-- The cache file holds what was saved, until it is written again. -/
theorem holds (hdone : pr.Completed tree force summary)
    (hafter : Touches (fun _ => False) (generate tree pr.settingsFile force).tree after) :
    after.Holds pr.layout.cacheFile (pr.cacheAfter tree force).write := by
  have hholds := holds_saved hdone.saved
  rw [← hdone.tree_eq] at hholds
  exact hholds.of_touches hafter fun _ hq => hq.elim

/-- The next build finds the cache that was saved. -/
theorem load_eq (hdone : pr.Completed tree force summary)
    (hafter : Touches (fun _ => False) (generate tree pr.settingsFile force).tree after) :
    ((pr.plan after).start after).cache = pr.cacheAfter tree force :=
  (BuildCache.remembers_of_holds (hdone.holds hafter)).load_eq

end Completed

/-- No artifact is found as a header, so a build touches no header that it does not touch by its
cache file. -/
theorem quiet_build {found : List Path} (hstands : after.Stands pr.layout.cacheFile)
    (hcache : ∀ header ∈ found, ∀ loc, after.locate pr.layout.cacheFile = .ok loc →
      ¬ after.EntryAt header loc) :
    Discovery.Quiet (fun q => Artifact.IsPath pr.layout.generatedOut q ∨ q = pr.layout.cacheFile)
      after found := by
  intro q above name hq hloc hslash hheader
  rcases hq with ⟨stem, hstem, suffix, hsuffix, rfl⟩ | rfl
  · have hname := Artifact.isEntryName hstem hsuffix
    obtain ⟨above', hchild⟩ := FileTree.exists_child_of_locate_join hname hloc
    rw [FileTree.eq_of_child_eq hslash hname.slash hchild,
      Discovery.isHeaderName_of_suffix stem hsuffix] at hheader
    cases hheader
  · exact ⟨(FileTree.stands_iff hloc).mp hstands, fun header hmem => hcache header hmem _ hloc⟩

/-- A cache file that has no name of a header is not found as one. -/
theorem not_entryAt_of_plain {dir : Path} {name : Text} (hname : IsEntryName name)
    (hplain : Discovery.isHeaderName name = false) (hfile : pr.layout.cacheFile = dir.join name) :
    ∀ header ∈ (pr.plan tree).headers, ∀ loc, tree.locate pr.layout.cacheFile = .ok loc →
      ¬ tree.EntryAt header loc := by
  rintro header hmem loc hloc ⟨above, last, way, rfl, hslash, -, rfl⟩
  obtain ⟨above', last', -, -, -, hjoin, hslash', hheader, -⟩ :=
    Discovery.exists_of_mem_collect (List.mem_mergeSort.mp hmem)
  rw [hfile] at hloc
  obtain ⟨way', hchild⟩ := FileTree.exists_child_of_locate_join hname hloc
  have hlast : last = last' := by
    obtain ⟨parts, hparts⟩ := FileTree.exists_splitWhere_join above hslash
    obtain ⟨parts', hparts'⟩ := FileTree.exists_splitWhere_join above' hslash'
    rw [hjoin, hparts'] at hparts
    exact (List.singleton_inj.mp (List.append_inj_right' hparts rfl)).symm
  rw [← hlast, FileTree.eq_of_child_eq hslash hname.slash hchild, hplain] at hheader
  cases hheader

theorem exists_readFile_of_readSettings {p : Path} {settings : Settings}
    (h : readSettings tree p = .ok settings) : ∃ read, tree.readFile p = .ok read := by
  cases hread : tree.readFile p with
  | ok read => exact ⟨read, rfl⟩
  | error e =>
      unfold readSettings FileTree.readText at h
      rw [hread] at h
      cases h

/-- The directory of the settings stays where it is when no directory goes. -/
theorem settingsDir_of_keeps (hworking : after.workingDir = tree.workingDir)
    (hkeeps : ∀ loc, tree.node? loc = some .directory → after.node? loc = some .directory)
    {p : Path} {read : Bytes × Moment} (hread : tree.readFile p = .ok read) :
    settingsDir after p = settingsDir tree p := by
  obtain ⟨loc, hloc, hdir⟩ := FileTree.hasDir_iff.mp (FileTree.hasDir_home hread)
  have hcanonical : ∀ t : FileTree, t.locate p.home = .ok loc → t.node? loc = some .directory →
      settingsDir t p = loc.toPath := by
    intro t hloc hdir
    have hpath : t.canonical p.home = .ok loc.toPath := by
      refine Header.bind_eq_ok_iff.mpr ⟨loc, hloc, ?_⟩
      rw [hdir]
    unfold Path.home at hpath
    unfold settingsDir
    cases hparent : p.parent? with
    | none =>
        rw [hparent] at hpath
        dsimp only at hpath ⊢
        rw [hpath]
    | some dir =>
        rw [hparent] at hpath
        dsimp only at hpath ⊢
        rw [hpath]
  rw [hcanonical tree hloc hdir,
    hcanonical after (FileTree.locate_of_keeps hworking hkeeps hloc) (hkeeps loc hdir)]

/-- A change of other files leaves the settings as they are. -/
theorem settings_of_touches (htouches : Touches touched tree after)
    (hsettings : readSettings tree pr.settingsFile = .ok pr.settings)
    (hdir : settingsDir tree pr.settingsFile = pr.dir)
    (hapart : ∀ q, touched q → Apart pr.settingsFile q) :
    readSettings after pr.settingsFile = .ok pr.settings ∧
      settingsDir after pr.settingsFile = pr.dir := by
  obtain ⟨read, hread⟩ := exists_readFile_of_readSettings hsettings
  have hsame := (htouches.readFile_eq hapart hread).trans hread.symm
  exact ⟨(readSettings_of_readFile hsame).trans hsettings,
    (settingsDir_of_keeps htouches.workingDir htouches.keeps hread).trans hdir⟩

/-- After a build that wrote all there was to write, a plan that knows the same has nothing to
do. -/
theorem idle_after_build (hdone : pr.Completed tree force summary)
    (hkept : pr.Kept runs (pr.cacheIn tree)) (hstamped : Stamped runs tree)
    (hwritten : summary.failures = (pr.plan tree).batch.failures.length)
    (hafter : Touches (fun _ => False) (generate tree pr.settingsFile force).tree after)
    (halike : (pr.plan tree).Alike (pr.plan after)) : (pr.plan after).Idle after := by
  have hload := hdone.load_eq hafter
  obtain ⟨-, htree, hsummary⟩ := generate_of_ok hdone.settings hdone.dir hdone.result
  have hunwritten : ∀ h a, ¬ (pr.plan tree).Unwritten
      (tree.makeDirs pr.layout.generatedOut).1 force h a := by
    intro h a hunwritten
    have hcounted := hunwritten.failures_lt
    rw [hsummary] at hwritten
    exact Nat.lt_irrefl _ (hwritten ▸ hcounted)
  refine ⟨fun header entry hentry => ?_, fun h' hmem' e' he' => ?_⟩
  · rw [hload] at hentry
    rw [halike.liveHeaders_eq]
    exact (get?_cacheAfter.mp hentry).1
  · obtain ⟨h, hmem, e, he, hpath, hsame⟩ := halike.exists_header hmem' he'
    obtain ⟨entry, hentry, htime⟩ := Plan.noted_rendered (regular pr tree) hmem he
      (hunwritten h)
    obtain rfl := hkept.entry_pass_eq hstamped (List.Subset.refl _) hmem he hentry htime
    have hreflects : (pr.plan tree).Reflects h.path := ⟨h, hmem, e, rfl, he⟩
    have hcached := get?_cacheAfter.mpr ⟨mem_liveHeaders_of_reflects hreflects, hentry⟩
    rw [hload]
    rw [hpath, hsame] at hcached
    refine BuildCache.isUnchanged_of_entry hcached fun q hq => ?_
    rw [← hsame] at hq
    have hartifact : (pr.plan tree).IsArtifact q := ⟨h.path, h, hmem, e, rfl, he, hq⟩
    refine hafter.contains (fun _ hnone => hnone.elim) ?_
    rw [htree]
    rcases contains_execute_or_unwritten hkept hstamped hartifact force with
      hthere | ⟨g, a, -, hfailed⟩
    · exact hthere
    · exact absurd hfailed (hunwritten g a)

/-- **A build right after a build has nothing to do.** Let the project have no project files, and
let the cache that a build finds be none, or one that builds of the project have left, where a
header with a recorded time is as it was when the time was recorded. Let the build, forced or not,
get to its end, with all artifacts and the cache written. Then the next build, whatever the time and
not forced, writes no artifact, counts the same headers, entities and failures, and leaves all files
and directories as they are. The settings file must be none that a build writes, the cache file must
not be found as a header, and the source root must not lead to an old directory by way of new
ones. -/
theorem repeated_build_is_idle (hdone : pr.Completed tree force summary)
    (hkept : pr.Kept runs (pr.cacheIn tree)) (hstamped : Stamped runs tree)
    (hwritten : summary.failures = (pr.plan tree).batch.failures.length)
    {clock : Moment} (hafter : (generate tree pr.settingsFile force).tree.later clock = after)
    (hapart : ∀ q, Artifact.IsPath pr.layout.generatedOut q ∨ q = pr.layout.cacheFile →
      Apart pr.settingsFile q)
    (hcache : ∀ header ∈ (pr.plan after).headers, ∀ loc,
      after.locate pr.layout.cacheFile = .ok loc → ¬ after.EntryAt header loc)
    (hway : ∀ loc, after.locate pr.layout.sourceRoot = .ok loc →
      tree.node? loc = some .directory → tree.locate pr.layout.sourceRoot = .ok loc) :
    ∃ again, (generate after pr.settingsFile false).result = .ok again ∧
      again.written = 0 ∧ again.headers = summary.headers ∧
      again.entities = summary.entities ∧ again.failures = summary.failures ∧
      after.changes (generate after pr.settingsFile false).tree = [] ∧
      after.newDirs (generate after pr.settingsFile false).tree = [] := by
  obtain ⟨hmade, htree₀, hsummary⟩ := generate_of_ok hdone.settings hdone.dir hdone.result
  have hlater : Touches (fun _ => False) (generate tree pr.settingsFile force).tree after :=
    hafter ▸ FileTree.touches_later _ clock
  have htouches := (hdone.touches hkept.saved).trans (hlater.mono fun _ hq => hq.elim)
  -- the second build finds the settings and the headers of the first
  obtain ⟨hsettings, hdir⟩ := settings_of_touches htouches hdone.settings hdone.dir hapart
  have halike := alike_of_touches htouches hway (quiet_build (hdone.holds hlater).stands hcache)
  have hidle := idle_after_build hdone hkept hstamped hwritten hlater halike
  have hdirs : after.makeDirs pr.layout.generatedOut = (after, .ok ()) := by
    have hexecute := touches_execute pr tree force
    rw [← htree₀] at hexecute
    exact FileTree.makeDirs_again hmade (hexecute.trans (hlater.mono fun _ hq => hq.elim))
  have hresult : (generate after pr.settingsFile false).result =
      .ok (execute after (pr.plan after) false).2.2 := by
    rw [generate_eq hsettings hdir, hdirs]
  obtain ⟨-, -, hnothing, hfailures⟩ := hidle.rendered
  obtain ⟨hheaders, hentities⟩ :=
    halike.counts_eq (tree.makeDirs pr.layout.generatedOut).1 after force false
  -- all that it writes is the cache that it finds
  have htree : (generate after pr.settingsFile false).tree =
      ((pr.cacheAfter tree force).save after pr.layout.cacheFile).1 := by
    rw [tree_of_ok hsettings hdir hdone.project hresult, hdirs, hidle.saved_eq,
      hdone.load_eq hlater]
    rfl
  have hagain := BuildCache.save_again hdone.saved (hdone.tree_eq ▸ hlater)
  refine ⟨_, hresult, hnothing, ?_, ?_, ?_, ?_, ?_⟩
  · rw [hsummary]
    exact hheaders
  · rw [hsummary]
    exact hentities
  · rw [hwritten, ← halike.failures]
    exact hfailures
  · rw [htree]
    exact FileTree.changes_eq_nil hagain.1
  · rw [htree]
    exact FileTree.newDirs_eq_nil hagain.2

end Project

namespace Detour

open Family (header seconds)

/-- A project without project files, whose headers are below the given path. -/
def project (root : Text) : Project where
  settingsFile := "/w/reflect.toml"
  settings :=
    { sourceRoot := root
      macroHeader := "Macros.h"
      generatedOut := "Generated"
      cacheFile := "cache.json"
      excludeDirs := []
      workload := {}
      projectFiles := none }
  dir := "/w"

def settingsText (root : Text) : Text :=
  "[codegen]\nsource_root = \"".toList ++ root ++ "\"\nmacro_header = \"Macros.h\"\n".toList ++
    "generated_out = \"Generated\"\ncache_file = \"cache.json\"\n".toList

/-- The tree before the first build, with one class. -/
def sources (root : Text) : FileTree :=
  let empty := FileTree.ofWorkingDir "/w"
  let configured :=
    (empty.addFile "/w/reflect.toml" (Utf8.encode (settingsText root)) (seconds 1)).1
  (configured.addFile "/w/Source/Foo.h" (header "UFoo" "UObject") (seconds 1)).1

/-- The tree some time after a build of the given headers. -/
def built (root : Text) (headers : List Path) : FileTree :=
  (execute ((sources root).makeDirs (project root).layout.generatedOut).1
    (planOf (sources root) (project root).layout headers) false).1.later (seconds 2)

/-- The header on the straight way. -/
def direct : List Path :=
  ["/w/Source/Foo.h"]

theorem found_direct : (project "Source").Found (sources "Source") direct := by
  decide +kernel

theorem looked_direct :
    (project "Source").cacheIn (sources "Source") = .empty ∧
      (sources "Source").locate (project "Source").layout.sourceRoot = .ok "/w/Source" ∧
      (execute ((sources "Source").makeDirs (project "Source").layout.generatedOut).1
        (planOf (sources "Source") (project "Source").layout direct) false).2.2.failures =
          (planOf (sources "Source") (project "Source").layout direct).batch.failures.length ∧
      (execute ((sources "Source").makeDirs (project "Source").layout.generatedOut).1
        (planOf (sources "Source") (project "Source").layout direct) false).2.2.headers = 1 ∧
      ((planOf (sources "Source") (project "Source").layout direct).saved
        ((planOf (sources "Source") (project "Source").layout direct).rendered
          ((sources "Source").makeDirs (project "Source").layout.generatedOut).1 false)).2 =
            .ok () := by
  decide +kernel

/-- The settings file is none that a build writes. -/
theorem apart_settings (root : Text) (q : Path)
    (hq : Artifact.IsPath (project root).layout.generatedOut q ∨
      q = (project root).layout.cacheFile) : Apart (project root).settingsFile q := by
  have hfile : (project root).settingsFile = Path.join "/w" "reflect.toml" := rfl
  have hcache : (project root).layout.cacheFile = Path.join "/w" "cache.json" := rfl
  have hname : IsEntryName "reflect.toml" := ⟨by decide, by decide, by decide⟩
  have hcacheName : IsEntryName "cache.json" := ⟨by decide, by decide, by decide⟩
  rw [hfile]
  rcases hq with hartifact | hq
  · exact hartifact.apart_of_suffix hname (by decide)
  · rw [hq, hcache]
    exact FileTree.apart_join hname hcacheName (by decide)

theorem not_entryAt_cache (root : Text) (tree : FileTree) :
    ∀ header ∈ ((project root).plan tree).headers, ∀ loc,
      tree.locate (project root).layout.cacheFile = .ok loc → ¬ tree.EntryAt header loc := by
  have hcache : (project root).layout.cacheFile = Path.join "/w" "cache.json" := rfl
  exact Project.not_entryAt_of_plain ⟨by decide, by decide, by decide⟩ (by decide) hcache

/-- The second of two builds on the straight way changes nothing. -/
theorem repeated_build_is_idle_direct :
    (∃ summary, (project "Source").Completed (sources "Source") false summary) ∧
      (project "Source").Kept [] ((project "Source").cacheIn (sources "Source")) ∧
      Project.Stamped [] (sources "Source") ∧
      ∃ again,
        (generate (built "Source" direct) (project "Source").settingsFile false).result =
          .ok again ∧ again.written = 0 ∧ again.headers = 1 ∧
        (built "Source" direct).changes
          (generate (built "Source" direct) (project "Source").settingsFile false).tree = [] := by
  obtain ⟨hempty, hroot, hwritten, hcounted, hsaved⟩ := looked_direct
  have hkept : (project "Source").Kept [] ((project "Source").cacheIn (sources "Source")) := by
    rw [hempty]
    exact .absent
  have hstamped : Project.Stamped [] (sources "Source") := fun _ hrun => by cases hrun
  obtain ⟨htree, hresult⟩ := found_direct.generate_eq false
  rw [← found_direct.plan_eq] at hsaved hwritten hcounted hresult
  have hdone : (project "Source").Completed (sources "Source") false _ :=
    ⟨found_direct.settings, found_direct.dir, rfl, hresult, hsaved⟩
  have hafter : (generate (sources "Source") (project "Source").settingsFile false).tree.later
      (seconds 2) = built "Source" direct := by
    rw [htree, built]
  have hway : ∀ loc, (built "Source" direct).locate (project "Source").layout.sourceRoot =
      .ok loc → (sources "Source").node? loc = some .directory →
        (sources "Source").locate (project "Source").layout.sourceRoot = .ok loc := by
    intro loc hloc _
    have hthere := (FileTree.touches_later _ (seconds 2)).locate_eq
      ((hdone.touches hkept.saved).locate_eq hroot)
    rw [hafter, hloc] at hthere
    rw [hroot, hthere]
  obtain ⟨again, hagain, hnothing, hheaders, -, -, hchanges, -⟩ :=
    Project.repeated_build_is_idle hdone hkept hstamped hwritten hafter
      (apart_settings "Source") (not_entryAt_cache "Source" _) hway
  exact ⟨⟨_, hdone⟩, hkept, hstamped, again, hagain, hnothing, hheaders.trans hcounted, hchanges⟩

/-- A way to the headers by the output directory, which is not there before the first build. -/
def detour : Text :=
  "Generated/../Source"

/-- The header on the way by the output directory. -/
def late : List Path :=
  ["/w/Generated/../Source/Foo.h"]

/-- The first build by the output directory finds no header, and the second finds one. -/
theorem found_by_detour : (project detour).Found (sources detour) [] ∧
    (project detour).Found (built detour []) late := by
  decide +kernel

theorem found_detour : (project detour).Found (sources detour) [] :=
  found_by_detour.1

theorem found_late : (project detour).Found (built detour []) late :=
  found_by_detour.2

theorem looked_detour :
    (project detour).cacheIn (sources detour) = .empty ∧
      (execute ((sources detour).makeDirs (project detour).layout.generatedOut).1
        (planOf (sources detour) (project detour).layout []) false).2.2.failures = 0 ∧
      ((planOf (sources detour) (project detour).layout []).saved
        ((planOf (sources detour) (project detour).layout []).rendered
          ((sources detour).makeDirs (project detour).layout.generatedOut).1 false)).2 = .ok () ∧
      (execute ((built detour []).makeDirs (project detour).layout.generatedOut).1
        (planOf (built detour []) (project detour).layout late) false).2.2.written = 2 ∧
      (built detour []).changes
        (execute ((built detour []).makeDirs (project detour).layout.generatedOut).1
          (planOf (built detour []) (project detour).layout late) false).1 ≠ [] := by
  decide +kernel

/-- **A build may find headers only after it has made its directories.** The source root leads to
the headers by the output directory. The first build finds none, writes its cache and has no
failures; the second, of the same tree, finds a header and writes its files. -/
theorem second_build_finds_more :
    (∃ summary, (project detour).Completed (sources detour) false summary ∧
        summary.failures = 0) ∧
      (project detour).Kept [] ((project detour).cacheIn (sources detour)) ∧
      Project.Stamped [] (sources detour) ∧
      (generate (sources detour) (project detour).settingsFile false).tree.later (seconds 2) =
        built detour [] ∧
      (∀ header ∈ ((project detour).plan (built detour [])).headers, ∀ loc,
        (built detour []).locate (project detour).layout.cacheFile = .ok loc →
          ¬ (built detour []).EntryAt header loc) ∧
      (∃ again, (generate (built detour []) (project detour).settingsFile false).result =
        .ok again ∧ again.written = 2) ∧
      (built detour []).changes
        (generate (built detour []) (project detour).settingsFile false).tree ≠ [] := by
  obtain ⟨hempty, hfailures, hsaved, hwritten, hchanges⟩ := looked_detour
  obtain ⟨htree, hresult⟩ := found_detour.generate_eq false
  obtain ⟨htree', hresult'⟩ := found_late.generate_eq false
  rw [← found_detour.plan_eq] at hfailures hsaved hresult
  have hdone : (project detour).Completed (sources detour) false _ :=
    ⟨found_detour.settings, found_detour.dir, rfl, hresult, hsaved⟩
  refine ⟨⟨_, hdone, hfailures⟩, ?_, fun _ hrun => (by cases hrun), ?_,
    not_entryAt_cache detour _, ⟨_, hresult', hwritten⟩, ?_⟩
  · rw [hempty]
    exact .absent
  · rw [htree, built]
  · rw [htree']
    exact hchanges

end Detour

end Build

end Registrar
