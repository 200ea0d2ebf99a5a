import Registrar.Proofs.Rendering

/-!
# Builds one after another

A project is edited and built again and again (`Build.Project.History`). A build that is not forced
leaves a header alone when its time of change is the recorded one. That is right as long as a header
which has its recorded time is rendered as in the build before (`Build.Project.Ready.steady`): then
the cache is right about the last build all along (`Build.Project.History.exists_faithful`), and the
build ends with the very tree that a forced one would leave.

It takes more than the bytes of a header to keep its time for. The role of a class hangs on the
headers of its parents, and a parent that changes leaves the time of the class as it was.
-/

namespace Registrar.Build

open FileTree (Apart IsEntryName Touches)

/-- The cache file and the project files are no artifacts, and the cache file is no project file. -/
structure Separate (layout : Layout) : Prop where
  cache : ∀ q, Artifact.IsPath layout.generatedOut q → Apart layout.cacheFile q
  project : ∀ f, layout.project = some f ∨ layout.filters = some f →
    Apart layout.cacheFile f ∧ ∀ q, Artifact.IsPath layout.generatedOut q → Apart q f

/-- When the file at a path was changed. -/
def modified? (tree : FileTree) (p : Path) : Option Moment :=
  (tree.readFile p).toOption.map Prod.snd

theorem modified?_of_readFile {tree : FileTree} {p : Path} {contents : Bytes} {modified : Moment}
    (h : tree.readFile p = .ok (contents, modified)) : modified? tree p = some modified := by
  unfold modified?
  rw [h]
  rfl

/-! ## From the first header to the project files -/

namespace Plan

variable {p : Plan} {tree : FileTree} {s s' : Progress} {h : ParsedHeader} {e : Entity}

/-- A build before its first header. -/
def start (p : Plan) (tree : FileTree) : Progress where
  tree := tree
  log := p.log ++ ("mundi-reflect: generating C++ code..." : Text) ::
    (BuildCache.load tree p.layout.cacheFile).2
  cache := (BuildCache.load tree p.layout.cacheFile).1
  summary := { headers := p.headers.length, failures := p.batch.failures.length }
  files := []

/-- A build after its last header. -/
def rendered (p : Plan) (tree : FileTree) (force : Bool) : Progress :=
  p.pass force p.batch.parsed (p.start tree)

/-- A build that has cleaned up and saved its cache. -/
def finished (p : Plan) (s : Progress) : Progress :=
  s.finish (liveHeaders p.headers p.batch.parsed) p.layout.cacheFile

theorem execute_fst (p : Plan) (tree : FileTree) (force : Bool) :
    (execute tree p force).1 =
      (updateProject (p.finished (p.rendered tree force)).tree p.layout
        (p.rendered tree force).files).1 :=
  rfl

/-- What comes after the last header is not counted. -/
theorem execute_summary (p : Plan) (tree : FileTree) (force : Bool) :
    (execute tree p force).2.2 = (p.rendered tree force).summary :=
  rfl

/-- What comes after the last header leaves a listed artifact in place. -/
theorem holds_finished {q : Path} {t : Text} (hcache : Apart p.layout.cacheFile q)
    (hproject : ∀ f, p.layout.project = some f ∨ p.layout.filters = some f → Apart q f)
    (hentries : ∀ header entry, s.cache.get? header = some entry → ∀ f ∈ entry.artifacts,
      Artifact.IsPath p.layout.generatedOut f)
    (hq : Artifact.IsPath p.layout.generatedOut q) (hlisted : q ∈ s.files) (files : List Path)
    (hholds : s.tree.Holds q t) :
    (updateProject (p.finished s).tree p.layout files).1.Holds q t := by
  obtain ⟨swept, hswept, hsaved⟩ :=
    s.finish_cases (liveHeaders p.headers p.batch.parsed) p.layout.cacheFile
  have hkept : swept.Holds q t := by
    apply hholds.of_touches hswept
    intro f hf
    obtain ⟨hstale, hnew⟩ := hf
    obtain ⟨entry, hentry, hartifact⟩ := List.mem_flatMap.mp hstale
    obtain ⟨header, hget⟩ := BuildCache.exists_get?_of_mem_stale hentry
    exact hq.apart (hentries header entry hget f hartifact) fun heq => hnew (heq ▸ hlisted)
  have hfinished : (p.finished s).tree.Holds q t := by
    rcases hsaved with hnothing | ⟨hwritten, -⟩
    · exact hkept.of_touches hnothing fun f hf => hf.elim
    · exact hkept.of_touches hwritten fun f hf => hf ▸ hcache.symm
  exact hfinished.of_touches (touches_updateProject _ _ _) hproject

/-- What comes after the last header leaves the artifacts in place. -/
theorem held_finished (hsep : Separate p.layout) (hp : p.Orderly)
    (hcurrent : p.Current s.tree s.cache) (hmem : h ∈ p.batch.parsed) (he : h.entity = some e)
    (hfiles : ∀ q ∈ Artifact.paths e p.layout.generatedOut, q ∈ s.files) (files : List Path)
    (hheld : p.Held s.tree h e) :
    p.Held (updateProject (p.finished s).tree p.layout files).1 h e := by
  intro a ha
  have hpath := isPath_of_mem_paths hp hmem he (path_mem_paths ha)
  exact holds_finished (hsep.cache a.path hpath) (fun f hf => (hsep.project f hf).2 a.path hpath)
    hcurrent.isPath hpath (hfiles a.path (path_mem_paths ha)) files (hheld a ha)

/-- A build leaves its own cache behind, or the one that it found where it cannot be saved. -/
theorem remembers_finished (hsep : Separate p.layout) {cache : BuildCache}
    (hcurrent : p.Current s.tree s.cache) (files : List Path)
    (hcache : BuildCache.Remembers p.layout.cacheFile cache s.tree) :
    ∃ kept, BuildCache.Remembers p.layout.cacheFile kept
        (updateProject (p.finished s).tree p.layout files).1 ∧
      (kept = s.cache.prune (liveHeaders p.headers p.batch.parsed) ∨ kept = cache) := by
  have hproject := touches_updateProject (p.finished s).tree p.layout files
  have hapart : ∀ f, p.layout.project = some f ∨ p.layout.filters = some f →
      Apart p.layout.cacheFile f := fun f hf => (hsep.project f hf).1
  obtain ⟨swept, hswept, hsaved⟩ :=
    s.finish_cases (liveHeaders p.headers p.batch.parsed) p.layout.cacheFile
  rcases hsaved with hnothing | ⟨-, hholds⟩
  · refine ⟨cache, ?_, Or.inr rfl⟩
    have hbefore : BuildCache.Remembers p.layout.cacheFile cache swept := by
      apply hcache.of_touches hswept
      intro q hq
      obtain ⟨entry, hentry, hartifact⟩ := List.mem_flatMap.mp hq.1
      obtain ⟨header, hget⟩ := BuildCache.exists_get?_of_mem_stale hentry
      exact hsep.cache q (hcurrent.isPath header entry hget q hartifact)
    exact (hbefore.of_touches hnothing fun q hq => hq.elim).of_touches hproject hapart
  · refine ⟨s.cache.prune (liveHeaders p.headers p.batch.parsed), ?_, Or.inl rfl⟩
    exact (BuildCache.remembers_of_holds hholds).of_touches hproject hapart

/-- Passes that agree end builds that agree. -/
theorem agree_finished (hagree : Agree s s') : (p.finished s).tree = (p.finished s').tree := by
  unfold finished Progress.finish
  dsimp only
  rw [hagree.cache, hagree.tree, hagree.files]
  rw [removeStale_foldl_fst _ _ _ _ (s'.log ++ _)]

end Plan

/-- A settings file, what it says, and the directory that it is in. -/
structure Project where
  settingsFile : Path
  settings : Settings
  dir : Path
deriving DecidableEq, Repr

namespace Project

/-- The paths of the project. -/
def layout (pr : Project) : Layout :=
  pr.settings.layout pr.dir

/-- What a build of the project knows of a tree. -/
def plan (pr : Project) (tree : FileTree) : Plan :=
  Build.plan tree pr.settings pr.dir

/-- A tree is ready for a build, where the build before found the tree `prev`. -/
structure Ready (pr : Project) (prev tree : FileTree) : Prop where
  settings : readSettings tree pr.settingsFile = .ok pr.settings
  dir : settingsDir tree pr.settingsFile = pr.dir
  /-- A header whose time of change is the recorded one is as the build before found it, and is
  rendered as it was then. -/
  steady : ∀ header entry,
    (BuildCache.load tree pr.layout.cacheFile).1.get? header = some entry →
    modified? tree header = some entry.modified →
      prev.readFile header = tree.readFile header ∧
      (pr.plan tree).rendered? header = (pr.plan prev).rendered? header
  /-- Different headers have entities with different names. -/
  distinct : ∀ h ∈ (pr.plan tree).batch.parsed, ∀ h' ∈ (pr.plan tree).batch.parsed,
    ∀ e ∈ h.entity, ∀ e' ∈ h'.entity, e.name = e'.name → h.path = h'.path

/-- An edit leaves the cache and the artifacts alone. -/
structure Edit (pr : Project) (tree tree' : FileTree) : Prop where
  cache : ∀ cache, BuildCache.Remembers pr.layout.cacheFile cache tree →
    BuildCache.Remembers pr.layout.cacheFile cache tree'
  artifacts : ∀ q, Artifact.IsPath pr.layout.generatedOut q → ∀ t, tree.Holds q t → tree'.Holds q t

/-- The trees that edits and builds lead to, each with the tree that the last build found. There is
no cache before the first build. -/
inductive History (pr : Project) : (prev tree : FileTree) → Prop
  | start {tree : FileTree} (hcache : BuildCache.Remembers pr.layout.cacheFile .empty tree) :
      History pr tree tree
  | edit {prev tree tree' : FileTree} (hhistory : History pr prev tree)
      (hedit : pr.Edit tree tree') : History pr prev tree'
  | build {prev tree : FileTree} (force : Bool) (hhistory : History pr prev tree)
      (hready : pr.Ready prev tree) : History pr tree (generate tree pr.settingsFile force).tree

/-! ## The parsed headers of a plan -/

variable {pr : Project} {prev tree tree' : FileTree}

theorem readFile_of_mem_parsed {h : ParsedHeader} (hmem : h ∈ (pr.plan tree).batch.parsed) :
    ∃ contents, tree.readFile h.path = .ok (contents, h.modified) ∧
      h.hash = Digest.ofBytes contents := by
  obtain ⟨path, -, hread⟩ := Batch.mem_parsed_iff.mp hmem
  obtain ⟨hpath, contents, hfile, hhash, -⟩ := ParsedHeader.of_read hread
  rw [hpath]
  exact ⟨contents, hfile, hhash⟩

/-- A plan has one parsed header for each path. -/
theorem eq_of_path_eq {h h' : ParsedHeader} (hmem : h ∈ (pr.plan tree).batch.parsed)
    (hmem' : h' ∈ (pr.plan tree).batch.parsed) (hpath : h.path = h'.path) : h = h' := by
  obtain ⟨path, -, hread⟩ := Batch.mem_parsed_iff.mp hmem
  obtain ⟨path', -, hread'⟩ := Batch.mem_parsed_iff.mp hmem'
  have heq : path = path' := by
    rw [← (ParsedHeader.of_read hread).1, hpath, (ParsedHeader.of_read hread').1]
  rw [heq] at hread
  exact Except.ok.inj (hread.symm.trans hread')

theorem slash_of_mem_parsed {h : ParsedHeader} {e : Entity}
    (hmem : h ∈ (pr.plan tree).batch.parsed) (he : h.entity = some e) : '/' ∉ e.name := by
  obtain ⟨path, -, hread⟩ := Batch.mem_parsed_iff.mp hmem
  exact ParsedHeader.slash_notMem_name hread he

theorem orderly (hready : pr.Ready prev tree) : (pr.plan tree).Orderly where
  unique _ hmem _ hmem' hpath := eq_of_path_eq hmem hmem' hpath
  slash _ hmem _ he := slash_of_mem_parsed hmem he
  named h hmem h' hmem' e e' he he' hname :=
    eq_of_path_eq hmem hmem' (hready.distinct h hmem h' hmem' e he e' he' hname)

/-! ## What the cache says of the last build -/

/-- The tree remembers a cache whose entries are right about the build that found `prev`: where a
header had its recorded time in that build, its artifacts were recorded and are still held. -/
structure Faithful (pr : Project) (prev tree : FileTree) (cache : BuildCache) : Prop where
  remembers : BuildCache.Remembers pr.layout.cacheFile cache tree
  isPath : ∀ header entry, cache.get? header = some entry → ∀ q ∈ entry.artifacts,
    Artifact.IsPath pr.layout.generatedOut q
  held : ∀ header entry contents artifacts, cache.get? header = some entry →
    prev.readFile header = .ok (contents, entry.modified) →
    (pr.plan prev).rendered? header = some artifacts →
      entry.hash = Digest.ofBytes contents ∧ entry.artifacts = artifacts.map (·.path) ∧
        ∀ a ∈ artifacts, tree.Holds a.path a.contents

variable {cache : BuildCache}

theorem faithful_start (hcache : BuildCache.Remembers pr.layout.cacheFile .empty tree) :
    pr.Faithful tree tree .empty where
  remembers := hcache
  isPath _ _ hentry := by cases hentry
  held _ _ _ _ hentry := by cases hentry

/-- An edit keeps the cache right. -/
theorem Faithful.edit (hfaithful : pr.Faithful prev tree cache) (hedit : pr.Edit tree tree') :
    pr.Faithful prev tree' cache where
  remembers := hedit.cache cache hfaithful.remembers
  isPath := hfaithful.isPath
  held header entry contents artifacts hentry hread hrendered := by
    obtain ⟨hhash, hpaths, hholds⟩ :=
      hfaithful.held header entry contents artifacts hentry hread hrendered
    refine ⟨hhash, hpaths, fun a ha => hedit.artifacts a.path ?_ a.contents (hholds a ha)⟩
    apply hfaithful.isPath header entry hentry
    rw [hpaths]
    exact List.mem_map_of_mem ha

/-- A cache that is right about the build before is current in a tree that is ready. -/
theorem Faithful.current (hfaithful : pr.Faithful prev tree cache) (hready : pr.Ready prev tree) :
    (pr.plan tree).Current tree cache := by
  have hload : (BuildCache.load tree pr.layout.cacheFile).1 = cache := hfaithful.remembers.load_eq
  refine ⟨hfaithful.isPath, fun h hmem e he entry hentry htime => ?_⟩
  obtain ⟨contents, hread, hhash⟩ := readFile_of_mem_parsed hmem
  rw [← htime] at hread
  obtain ⟨hprev, hsame⟩ :=
    hready.steady h.path entry (hload ▸ hentry) (modified?_of_readFile hread)
  rw [hread] at hprev
  rw [Plan.rendered?_eq (orderly hready) hmem he] at hsame
  obtain ⟨hdigest, hpaths, hholds⟩ :=
    hfaithful.held h.path entry contents _ hentry hprev hsame.symm
  refine ⟨?_, hholds⟩
  rw [Plan.path_rendering] at hpaths
  obtain ⟨hash, modified, artifacts⟩ := entry
  unfold Plan.entry
  rw [hhash, ← hdigest, ← htime, ← hpaths]

/-- Current entries are right about the build that found the tree. -/
theorem faithful_of_current (hremembers : BuildCache.Remembers pr.layout.cacheFile cache tree')
    (hcurrent : (pr.plan tree).Current tree' cache) : pr.Faithful tree tree' cache := by
  refine ⟨hremembers, hcurrent.isPath, ?_⟩
  intro header entry contents artifacts hentry hread hrendered
  obtain ⟨h, hmem, e, rfl, he, rfl⟩ := Plan.exists_of_rendered? hrendered
  obtain ⟨found, hfound, hhash⟩ := readFile_of_mem_parsed hmem
  have hboth : (contents, entry.modified) = (found, h.modified) :=
    Except.ok.inj (hread.symm.trans hfound)
  obtain ⟨hcontents, htime⟩ := Prod.mk.inj hboth
  obtain ⟨heq, hheld⟩ := hcurrent.held h hmem e he entry hentry htime
  rw [heq]
  refine ⟨?_, (Plan.path_rendering _ h e).symm, hheld⟩
  rw [hcontents]
  exact hhash

/-! ## Builds -/

/-- A build that gets past its settings makes the output directory and renders what it planned. -/
theorem generate_eq (hsettings : readSettings tree pr.settingsFile = .ok pr.settings)
    (hdir : settingsDir tree pr.settingsFile = pr.dir) (force : Bool) :
    generate tree pr.settingsFile force =
      match tree.makeDirs pr.layout.generatedOut with
      | (made, .error e) =>
        ⟨made, (pr.plan tree).log, .error (.write pr.layout.generatedOut e)⟩
      | (made, .ok ()) =>
        ⟨(execute made (pr.plan tree) force).1, (execute made (pr.plan tree) force).2.1,
          .ok (execute made (pr.plan tree) force).2.2⟩ := by
  unfold generate
  rw [hsettings]
  dsimp only
  rw [hdir]
  rfl

/-- Making directories leaves the cache current. -/
theorem current_made (hready : pr.Ready prev tree) (hfaithful : pr.Faithful prev tree cache)
    {made : FileTree} (htouches : Touches (fun _ => False) tree made) :
    (pr.plan tree).Current made cache ∧
      BuildCache.Remembers pr.layout.cacheFile cache made := by
  refine ⟨(hfaithful.current hready).weaken (fun _ _ hentry => hentry) ?_, ?_⟩
  · intro h _ e _ hheld a ha
    exact (hheld a ha).of_touches htouches fun q hq => hq.elim
  · exact hfaithful.remembers.of_touches htouches fun q hq => hq.elim

/-- A build starts with the cache that the tree remembers. -/
theorem current_start {made : FileTree} (hcurrent : (pr.plan tree).Current made cache)
    (hremembers : BuildCache.Remembers pr.layout.cacheFile cache made) :
    (pr.plan tree).Current ((pr.plan tree).start made).tree ((pr.plan tree).start made).cache := by
  show (pr.plan tree).Current made (BuildCache.load made pr.layout.cacheFile).1
  rw [hremembers.load_eq]
  exact hcurrent

/-- A build ends with a cache that is right about it. -/
theorem faithful_execute (hsep : Separate pr.layout) (hp : (pr.plan tree).Orderly)
    {made : FileTree} (hcurrent : (pr.plan tree).Current made cache)
    (hremembers : BuildCache.Remembers pr.layout.cacheFile cache made) (force : Bool) :
    ∃ kept, pr.Faithful tree (execute made (pr.plan tree) force).1 kept := by
  have hsub : (pr.plan tree).batch.parsed ⊆ (pr.plan tree).batch.parsed := List.Subset.refl _
  have hpass := Plan.current_pass hp force hsub (current_start hcurrent hremembers)
  have hkeep : ∀ h ∈ (pr.plan tree).batch.parsed, ∀ e, h.entity = some e →
      (pr.plan tree).Held ((pr.plan tree).rendered made force).tree h e →
      (pr.plan tree).Held (execute made (pr.plan tree) force).1 h e := by
    intro h hmem e he hheld
    exact Plan.held_finished hsep hp hpass hmem he
      (fun q hq => Plan.mem_files_pass force hmem he hq) _ hheld
  have htouches : Touches (Artifact.IsPath pr.layout.generatedOut) made
      ((pr.plan tree).rendered made force).tree :=
    Plan.touches_pass (s := (pr.plan tree).start made) hp force hsub
  have hremembers' := hremembers.of_touches htouches hsep.cache
  obtain ⟨kept, hkept, hcases⟩ := Plan.remembers_finished hsep hpass
    ((pr.plan tree).rendered made force).files hremembers'
  refine ⟨kept, faithful_of_current hkept ?_⟩
  rcases hcases with rfl | rfl
  · exact hpass.weaken (fun _ _ hentry => BuildCache.get?_of_prune hentry) hkeep
  · -- the entries that the build found, whose headers it has only left in place
    refine hcurrent.weaken (fun _ _ hentry => hentry) fun h hmem e he hheld => ?_
    exact hkeep h hmem e he (Plan.held_pass hp force hsub hmem he hheld)

theorem faithful_build (hsep : Separate pr.layout) (hready : pr.Ready prev tree)
    (hfaithful : pr.Faithful prev tree cache) (force : Bool) :
    ∃ kept, pr.Faithful tree (generate tree pr.settingsFile force).tree kept := by
  rw [generate_eq hready.settings hready.dir]
  cases hmade : tree.makeDirs pr.layout.generatedOut with
  | mk made result =>
      have htouches := FileTree.touches_makeDirs tree pr.layout.generatedOut
      rw [hmade] at htouches
      obtain ⟨hcurrent, hremembers⟩ := current_made hready hfaithful htouches
      cases result with
      | error e => exact ⟨cache, faithful_of_current hremembers hcurrent⟩
      | ok done => exact faithful_execute hsep (orderly hready) hcurrent hremembers force

/-- Along every history the cache is right about the last build. -/
theorem History.exists_faithful (hsep : Separate pr.layout) (hhistory : pr.History prev tree) :
    ∃ cache, pr.Faithful prev tree cache := by
  induction hhistory with
  | start hcache => exact ⟨.empty, faithful_start hcache⟩
  | edit _ hedit ih =>
      obtain ⟨cache, hfaithful⟩ := ih
      exact ⟨cache, hfaithful.edit hedit⟩
  | build force _ hready ih =>
      obtain ⟨cache, hfaithful⟩ := ih
      exact faithful_build hsep hready hfaithful force

/-- **Unforced builds are as good as forced ones.** After any edits and builds, where a header that
has its recorded time is rendered as in the build before, a build that is not forced ends with the
tree that a forced one leaves. Without a failure every artifact holds what its header is rendered
to. -/
theorem unforced_eq_forced (hsep : Separate pr.layout) (hhistory : pr.History prev tree)
    (hready : pr.Ready prev tree) :
    (generate tree pr.settingsFile false).tree = (generate tree pr.settingsFile true).tree ∧
      ∀ summary, (generate tree pr.settingsFile false).result = .ok summary →
        summary.failures = 0 → ∀ h ∈ (pr.plan tree).batch.parsed, ∀ e, h.entity = some e →
          ∀ a ∈ (pr.plan tree).rendering h e,
            (generate tree pr.settingsFile false).tree.Holds a.path a.contents := by
  obtain ⟨cache, hfaithful⟩ := hhistory.exists_faithful hsep
  have hp := orderly hready
  rw [generate_eq hready.settings hready.dir, generate_eq hready.settings hready.dir]
  cases hmade : tree.makeDirs pr.layout.generatedOut with
  | mk made result =>
      cases result with
      | error e => exact ⟨rfl, fun summary hresult => by cases hresult⟩
      | ok done =>
          have htouches := FileTree.touches_makeDirs tree pr.layout.generatedOut
          rw [hmade] at htouches
          obtain ⟨hcurrent, hremembers⟩ := current_made hready hfaithful htouches
          have hsub : (pr.plan tree).batch.parsed ⊆ (pr.plan tree).batch.parsed :=
            List.Subset.refl _
          have hstart := current_start hcurrent hremembers
          have hagree : Plan.Agree ((pr.plan tree).rendered made false)
              ((pr.plan tree).rendered made true) :=
            Plan.agree_pass hp hsub hstart ⟨rfl, rfl, rfl⟩
          refine ⟨?_, ?_⟩
          · show (execute made (pr.plan tree) false).1 = (execute made (pr.plan tree) true).1
            rw [Plan.execute_fst, Plan.execute_fst, Plan.agree_finished hagree, hagree.files]
          · intro summary hresult hzero h hmem e he
            cases hresult
            have hpass := Plan.current_pass hp false hsub hstart
            obtain ⟨-, hheld⟩ := Plan.held_of_pass hp false hsub hstart hzero
            exact Plan.held_finished hsep hp hpass hmem he
              (fun q hq => Plan.mem_files_pass false hmem he hq) _ (hheld h hmem e he)

/-! ## Looking into a tree -/

/-- A tree has the settings of the project, takes its output directory, and has the given headers in
the order of paths. -/
structure Found (pr : Project) (tree : FileTree) (headers : List Path) : Prop where
  settings : readSettings tree pr.settingsFile = .ok pr.settings
  dir : settingsDir tree pr.settingsFile = pr.dir
  made : (tree.makeDirs pr.layout.generatedOut).2 = .ok ()
  collected : Discovery.collect tree ⟨pr.layout.generatedOut, pr.settings.excludeDirs⟩
    (tree.nodes.size + 1) pr.layout.sourceRoot = headers
  sorted : headers.Pairwise fun p q => Path.le p q = true

variable {headers : List Path}

theorem found_iff : pr.Found tree headers ↔
    readSettings tree pr.settingsFile = .ok pr.settings ∧ settingsDir tree pr.settingsFile = pr.dir ∧
      (tree.makeDirs pr.layout.generatedOut).2 = .ok () ∧
      Discovery.collect tree ⟨pr.layout.generatedOut, pr.settings.excludeDirs⟩
        (tree.nodes.size + 1) pr.layout.sourceRoot = headers ∧
      headers.Pairwise fun p q => Path.le p q = true := by
  constructor
  · intro h
    exact ⟨h.settings, h.dir, h.made, h.collected, h.sorted⟩
  · rintro ⟨hsettings, hdir, hmade, hcollected, hsorted⟩
    exact ⟨hsettings, hdir, hmade, hcollected, hsorted⟩

instance : Decidable (pr.Found tree headers) :=
  decidable_of_iff _ found_iff.symm

/-- The plan of a tree is about the headers that are found. -/
theorem Found.plan_eq (hfound : pr.Found tree headers) :
    pr.plan tree = planOf tree pr.layout headers := by
  have hheaders : Discovery.headers tree pr.layout.sourceRoot
      ⟨pr.layout.generatedOut, pr.settings.excludeDirs⟩ = headers := by
    unfold Discovery.headers
    rw [hfound.collected]
    exact List.mergeSort_of_pairwise hfound.sorted
  show planOf tree pr.layout (Discovery.headers tree pr.layout.sourceRoot
    ⟨pr.layout.generatedOut, pr.settings.excludeDirs⟩) = _
  rw [hheaders]

/-- A build of the headers that are found. -/
theorem Found.generate_eq (hfound : pr.Found tree headers) (force : Bool) :
    (generate tree pr.settingsFile force).tree =
        (execute (tree.makeDirs pr.layout.generatedOut).1
          (planOf tree pr.layout headers) force).1 ∧
      (generate tree pr.settingsFile force).result =
        .ok (execute (tree.makeDirs pr.layout.generatedOut).1
          (planOf tree pr.layout headers) force).2.2 := by
  have hmade := hfound.made
  rw [Project.generate_eq hfound.settings hfound.dir, hfound.plan_eq]
  cases hdirs : tree.makeDirs pr.layout.generatedOut with
  | mk made result =>
      rw [hdirs] at hmade
      cases hmade
      exact ⟨rfl, rfl⟩

/-- A tree is ready by the entries of its cache and the headers that are found. -/
theorem Found.ready {headers₀ : List Path} (hfound : pr.Found tree headers)
    (hprev : pr.plan prev = planOf prev pr.layout headers₀)
    (hsteady : ∀ x ∈ (BuildCache.load tree pr.layout.cacheFile).1.entries.entries,
      modified? tree x.1 = some x.2.modified → prev.readFile x.1 = tree.readFile x.1 ∧
        (planOf tree pr.layout headers).rendered? x.1 =
          (planOf prev pr.layout headers₀).rendered? x.1)
    (hdistinct : ∀ h ∈ (planOf tree pr.layout headers).batch.parsed,
      ∀ h' ∈ (planOf tree pr.layout headers).batch.parsed,
        ∀ e ∈ h.entity, ∀ e' ∈ h'.entity, e.name = e'.name → h.path = h'.path) :
    pr.Ready prev tree := by
  rw [← hfound.plan_eq] at hsteady hdistinct
  rw [← hprev] at hsteady
  refine ⟨hfound.settings, hfound.dir, ?_, hdistinct⟩
  intro header entry hentry
  exact hsteady (header, entry) (Dict.mem_entries_of_get? hentry)

/-- Settings are what their file says. -/
theorem readSettings_of_readFile {p : Path} (h : tree'.readFile p = tree.readFile p) :
    readSettings tree' p = readSettings tree p := by
  unfold readSettings FileTree.readText
  rw [h]

/-- A change of files other than the cache and the artifacts is an edit. -/
theorem edit_of_touches {touched : Path → Prop} (h : Touches touched tree tree')
    (hcache : ∀ q, touched q → Apart pr.layout.cacheFile q)
    (hartifacts : ∀ q, touched q → ∀ a, Artifact.IsPath pr.layout.generatedOut a → Apart a q) :
    pr.Edit tree tree' where
  cache _ hremembers := hremembers.of_touches h hcache
  artifacts a ha _ hholds := hholds.of_touches h fun q hq => hartifacts q hq a ha

end Project

namespace Family

/-- A project in which a class is derived from another. -/
def project : Project where
  settingsFile := "/w/reflect.toml"
  settings :=
    { sourceRoot := "Source"
      macroHeader := "Macros.h"
      generatedOut := "Generated"
      cacheFile := "cache.json"
      excludeDirs := []
      workload := {}
      projectFiles := some ⟨"Game.vcxproj", none⟩ }
  dir := "/w"

def settingsText : Text :=
  "[codegen]\nsource_root = \"Source\"\nmacro_header = \"Macros.h\"\n".toList ++
    "generated_out = \"Generated\"\ncache_file = \"cache.json\"\n".toList ++
    "[project]\nvcxproj = \"Game.vcxproj\"\n".toList

/-- A header with a class. -/
def header (name parent : Text) : Bytes :=
  Utf8.encode ("UCLASS()\nclass ".toList ++ name ++ " : public ".toList ++ parent ++
    "\n\x7b\n    GENERATED_REFLECTION_BODY()\n\x7d;\n".toList)

def seconds (n : Nat) : Moment :=
  (Moment.ofParts? n 0).getD .epoch

/-- The headers in the order of their paths. -/
def headers : List Path :=
  ["/w/Source/Child.h", "/w/Source/Parent.h"]

/-- The tree before the first build. -/
def sources : FileTree :=
  let empty := FileTree.ofWorkingDir "/w"
  let configured := (empty.addFile "/w/reflect.toml" (Utf8.encode settingsText) (seconds 1)).1
  let child := (configured.addFile "/w/Source/Child.h" (header "UChild" "UParent") (seconds 1)).1
  (child.addFile "/w/Source/Parent.h" (header "UParent" "UObject") (seconds 1)).1

/-- The tree after the first build. -/
def built : FileTree :=
  (execute (sources.makeDirs project.layout.generatedOut).1
    (planOf sources project.layout headers) false).1

/-- The tree after the parent was derived from another class. -/
def reparented (parent : Text) : FileTree :=
  (built.addFile "/w/Source/Parent.h" (header "UParent" parent) (seconds 2)).1

theorem separate : Separate project.layout := by
  have hcache : project.layout.cacheFile = Path.join "/w" "cache.json" := by decide
  have hproject : project.layout.project = some (Path.join "/w" "Game.vcxproj") := by decide
  have hfilters : project.layout.filters = some (Path.join "/w" "Game.vcxproj.filters") := by decide
  have hcacheName : IsEntryName "cache.json" := ⟨by decide, by decide, by decide⟩
  have hprojectName : IsEntryName "Game.vcxproj" := ⟨by decide, by decide, by decide⟩
  have hfiltersName : IsEntryName "Game.vcxproj.filters" := ⟨by decide, by decide, by decide⟩
  refine ⟨fun q hq => ?_, fun f hf => ?_⟩
  · rw [hcache]
    exact hq.apart_of_suffix hcacheName (by decide)
  · rw [hproject, hfilters] at hf
    rw [hcache]
    rcases hf with hf | hf
    · obtain rfl := Option.some.inj hf
      refine ⟨FileTree.apart_join hcacheName hprojectName (by decide), fun q hq => ?_⟩
      exact (hq.apart_of_suffix hprojectName (by decide)).symm
    · obtain rfl := Option.some.inj hf
      refine ⟨FileTree.apart_join hcacheName hfiltersName (by decide), fun q hq => ?_⟩
      exact (hq.apart_of_suffix hfiltersName (by decide)).symm

/-- What the first build looks at: the settings and the headers are found, there is no cache, and no two
headers have entities of one name. -/
theorem evaluated_sources :
    project.Found sources headers ∧
      (sources.locate project.layout.cacheFile = .ok "/w/cache.json" ∧
        sources.node? "/w/cache.json" = none) ∧
      ∀ h ∈ (planOf sources project.layout headers).batch.parsed,
        ∀ h' ∈ (planOf sources project.layout headers).batch.parsed,
          ∀ e ∈ h.entity, ∀ e' ∈ h'.entity, e.name = e'.name → h.path = h'.path := by
  -- at once, as each part reads the same texts
  decide +kernel

theorem found_sources : project.Found sources headers :=
  evaluated_sources.1

theorem remembers_sources : BuildCache.Remembers project.layout.cacheFile .empty sources :=
  BuildCache.remembers_empty evaluated_sources.2.1.1 evaluated_sources.2.1.2

theorem ready_sources : project.Ready sources sources := by
  refine found_sources.ready found_sources.plan_eq ?_ evaluated_sources.2.2
  intro x hx
  rw [remembers_sources.load_eq] at hx
  cases hx

theorem tree_generate_sources : (generate sources project.settingsFile false).tree = built := by
  rw [(found_sources.generate_eq false).1, built]

/-- A build and then a change of the parent. -/
theorem history (parent : Text) : project.History sources (reparented parent) := by
  have hcache : project.layout.cacheFile = Path.join "/w" "cache.json" := by decide
  have hcacheName : IsEntryName "cache.json" := ⟨by decide, by decide, by decide⟩
  have hparent : ("/w/Source/Parent.h" : Path) = Path.join "/w/Source" "Parent.h" := by decide
  have hparentName : IsEntryName "Parent.h" := ⟨by decide, by decide, by decide⟩
  have hbuilt := Project.History.build false (.start remembers_sources) ready_sources
  rw [tree_generate_sources] at hbuilt
  have htouches := FileTree.touches_addFile built "/w/Source/Parent.h" (header "UParent" parent)
    (seconds 2)
  rw [reparented]
  refine .edit hbuilt (Project.edit_of_touches htouches ?_ ?_)
  · intro q hq
    rw [hq, hparent, hcache]
    exact FileTree.apart_join hcacheName hparentName (by decide)
  · intro q hq a ha
    rw [hq, hparent]
    exact (ha.apart_of_suffix hparentName (by decide)).symm

/-- A change of the parent leaves the settings and the paths of the headers as they were. -/
abbrev Looked (parent : Text) : Prop :=
  (reparented parent).readFile project.settingsFile = sources.readFile project.settingsFile ∧
    settingsDir (reparented parent) project.settingsFile = project.dir ∧
    ((reparented parent).makeDirs project.layout.generatedOut).2 = .ok () ∧
    Discovery.collect (reparented parent)
      ⟨project.layout.generatedOut, project.settings.excludeDirs⟩
      ((reparented parent).nodes.size + 1) project.layout.sourceRoot = headers

theorem found_reparented {parent : Text} (h : Looked parent) :
    project.Found (reparented parent) headers where
  settings := (Project.readSettings_of_readFile h.1).trans found_sources.settings
  dir := h.2.1
  made := h.2.2.1
  collected := h.2.2.2
  sorted := found_sources.sorted

theorem looked_thing : Looked "UThing" ∧
    (∀ x ∈ (BuildCache.load (reparented "UThing") project.layout.cacheFile).1.entries.entries,
      modified? (reparented "UThing") x.1 = some x.2.modified →
        sources.readFile x.1 = (reparented "UThing").readFile x.1 ∧
        (planOf (reparented "UThing") project.layout headers).rendered? x.1 =
          (planOf sources project.layout headers).rendered? x.1) ∧
    ∀ h ∈ (planOf (reparented "UThing") project.layout headers).batch.parsed,
      ∀ h' ∈ (planOf (reparented "UThing") project.layout headers).batch.parsed,
        ∀ e ∈ h.entity, ∀ e' ∈ h'.entity, e.name = e'.name → h.path = h'.path := by
  decide +kernel

theorem ready_thing : project.Ready sources (reparented "UThing") :=
  (found_reparented looked_thing.1).ready found_sources.plan_eq looked_thing.2.1 looked_thing.2.2

/-- The parent is derived from a class that gives it no role, as it was before. -/
theorem unforced_eq_forced_thing :
    Separate project.layout ∧ project.History sources (reparented "UThing") ∧
      project.Ready sources (reparented "UThing") ∧
      (generate (reparented "UThing") project.settingsFile false).tree =
        (generate (reparented "UThing") project.settingsFile true).tree :=
  ⟨separate, history _, ready_thing,
    (Project.unforced_eq_forced separate (history _) ready_thing).1⟩

theorem looked_actor : Looked "AActor" ∧
    (∀ x ∈ (BuildCache.load (reparented "AActor") project.layout.cacheFile).1.entries.entries,
      modified? (reparented "AActor") x.1 = some x.2.modified →
        sources.readFile x.1 = (reparented "AActor").readFile x.1) ∧
    (execute ((reparented "AActor").makeDirs project.layout.generatedOut).1
      (planOf (reparented "AActor") project.layout headers) false).2.2.failures = 0 ∧
    (execute ((reparented "AActor").makeDirs project.layout.generatedOut).1
      (planOf (reparented "AActor") project.layout headers) false).1.readText
        "/w/Generated/UChild.generated.cpp" ≠
      (execute ((reparented "AActor").makeDirs project.layout.generatedOut).1
        (planOf (reparented "AActor") project.layout headers) true).1.readText
          "/w/Generated/UChild.generated.cpp" := by
  decide +kernel

/-- **A class is left stale when its parent changes.** The child has its recorded time and its
bytes, and no header that has its recorded time has changed; but the parent became an actor, so the
child is to be spawned, and only a forced build says so. -/
theorem stale_after_parent_change :
    project.History sources (reparented "AActor") ∧
      (∀ header entry,
        (BuildCache.load (reparented "AActor") project.layout.cacheFile).1.get? header =
          some entry →
        modified? (reparented "AActor") header = some entry.modified →
          sources.readFile header = (reparented "AActor").readFile header) ∧
      (∃ summary, (generate (reparented "AActor") project.settingsFile false).result =
        .ok summary ∧ summary.failures = 0) ∧
      (generate (reparented "AActor") project.settingsFile false).tree.readText
          "/w/Generated/UChild.generated.cpp" ≠
        (generate (reparented "AActor") project.settingsFile true).tree.readText
          "/w/Generated/UChild.generated.cpp" := by
  obtain ⟨hlooked, hsame, hfailures, hstale⟩ := looked_actor
  have hfound := found_reparented hlooked
  refine ⟨history _, ?_, ?_, ?_⟩
  · intro header entry hentry
    exact hsame (header, entry) (Dict.mem_entries_of_get? hentry)
  · exact ⟨_, (hfound.generate_eq false).2, hfailures⟩
  · rw [(hfound.generate_eq false).1, (hfound.generate_eq true).1]
    exact hstale

end Family

end Registrar.Build
