import Registrar.Proofs.Sweeping

/-!
# Files that came of earlier builds

A project is edited and built again and again, and every build is without failures and saves its
cache (`Build.Project.Builds`). A file that came of a header is removed when the header is gone or
has no entity any more. But a header that has another entity than in the build before is recorded
anew, and with the old entry goes what was known of the old files: they are orphaned
(`Build.Project.Orphaned`). Nothing else is left behind (`Build.Project.stands_iff_orphaned`).
-/

namespace Registrar

open FileTree (Apart IsEntryName Touches)

/-- The paths of artifacts hang on the name and the kind of their entity. -/
theorem Artifact.paths_congr {e e' : Entity} (hname : e.name = e'.name) (hkind : e.kind = e'.kind)
    (outDir : Path) : paths e outDir = paths e' outDir := by
  unfold paths headerPath sourcePath
  rw [hname, hkind]

namespace Build.Project

variable {pr : Project} {tree tree' last : FileTree} {found : List FileTree} {cache : BuildCache}
  {force : Bool} {q : Path}

/-! ## The headers of a plan -/

theorem regular (pr : Project) (tree : FileTree) : (pr.plan tree).Regular where
  unique _ hmem _ hmem' hpath := eq_of_path_eq hmem hmem' hpath
  slash _ hmem _ he := slash_of_mem_parsed hmem he

/-- Headers with an entity keep their entries. -/
theorem mem_liveHeaders_of_reflects {header : Path} (h : (pr.plan tree).Reflects header) :
    header ∈ liveHeaders (pr.plan tree).headers (pr.plan tree).batch.parsed := by
  obtain ⟨h, hmem, e, rfl, he⟩ := h
  obtain ⟨path, hpath, hread⟩ := Batch.mem_parsed_iff.mp hmem
  refine List.mem_filter.mpr ⟨(ParsedHeader.of_read hread).1 ▸ hpath, ?_⟩
  rw [Bool.not_eq_true', List.contains_eq_mem, decide_eq_false_iff_not]
  intro hdead
  obtain ⟨h', hfilter, hsame⟩ := List.mem_map.mp hdead
  obtain ⟨hmem', hnone⟩ := List.mem_filter.mp hfilter
  obtain rfl := eq_of_path_eq hmem' hmem hsame
  rw [he] at hnone
  cases hnone

/-- Where every header could be parsed, those with an entity keep their entries. -/
theorem mem_liveHeaders_iff (hparsed : (pr.plan tree).batch.failures = []) (header : Path) :
    header ∈ liveHeaders (pr.plan tree).headers (pr.plan tree).batch.parsed ↔
      (pr.plan tree).Reflects header := by
  refine ⟨fun hlive => ?_, mem_liveHeaders_of_reflects⟩
  obtain ⟨hheader, hlive⟩ := List.mem_filter.mp hlive
  obtain ⟨h, hmem, rfl⟩ := Batch.exists_mem_parsed hparsed hheader
  cases he : h.entity with
  | some e => exact ⟨h, hmem, e, rfl, he⟩
  | none =>
      have hdead : h.path ∈
          ((pr.plan tree).batch.parsed.filter (·.entity.isNone)).map (·.path) :=
        List.mem_map_of_mem (List.mem_filter.mpr ⟨hmem, by rw [he]; rfl⟩)
      simp [hdead] at hlive

/-- A header with the same bytes and the same time is recorded as it was, whatever the macros. -/
theorem entry_eq {h h' : ParsedHeader} {e e' : Entity} (hmem : h ∈ (pr.plan tree).batch.parsed)
    (hmem' : h' ∈ (pr.plan tree').batch.parsed) (hpath : h.path = h'.path)
    (hsame : tree.readFile h.path = tree'.readFile h.path) (he : h.entity = some e)
    (he' : h'.entity = some e') : (pr.plan tree).entry h e = (pr.plan tree').entry h' e' := by
  obtain ⟨path, -, hread⟩ := Batch.mem_parsed_iff.mp hmem
  obtain ⟨path', -, hread'⟩ := Batch.mem_parsed_iff.mp hmem'
  obtain ⟨rfl, contents, hfile, hhash, hentity⟩ := ParsedHeader.of_read hread
  obtain ⟨rfl, contents', hfile', hhash', hentity'⟩ := ParsedHeader.of_read hread'
  rw [hfile, hpath, hfile'] at hsame
  obtain ⟨rfl, hmodified⟩ := Prod.mk.inj (Except.ok.inj hsame)
  rw [he, hpath] at hentity
  rw [he'] at hentity'
  obtain ⟨header, hheader, hname, hkind⟩ := Entity.exists_head_of_ofText hentity
  obtain ⟨header', hheader', hname', hkind'⟩ := Entity.exists_head_of_ofText hentity'
  obtain rfl : header = header' :=
    Option.some.inj (Except.ok.inj (hheader.symm.trans hheader'))
  have hpaths := Artifact.paths_congr (hname.trans hname'.symm) (hkind.trans hkind'.symm)
    pr.layout.generatedOut
  unfold Plan.entry
  rw [hhash, hhash', hmodified]
  exact congrArg _ hpaths

/-! ## Builds without failures -/

/-- A build of a tree is without failures and saves its cache, where the builds before found the
trees `found`, the last one first. -/
structure Clean (pr : Project) (found : List FileTree) (tree : FileTree) (force : Bool) :
    Prop where
  settings : readSettings tree pr.settingsFile = .ok pr.settings
  dir : settingsDir tree pr.settingsFile = pr.dir
  /-- A header that has the time of change that the build before found is as it was. -/
  stamped : ∀ last ∈ found.head?, ∀ h' ∈ (pr.plan last).batch.parsed,
    ∀ h ∈ (pr.plan tree).batch.parsed, h.path = h'.path → h.modified = h'.modified →
      last.readFile h.path = tree.readFile h.path
  done : ∃ summary, (generate tree pr.settingsFile force).result = .ok summary ∧
    summary.failures = 0
  saved : ((pr.plan tree).saved
    ((pr.plan tree).rendered (tree.makeDirs pr.layout.generatedOut).1 force)).2 = .ok ()

/-- The trees that edits and builds lead to, each with the trees that the builds found, the last one
first. There is no cache before the first build, and edits leave the cache alone and every path that
an artifact may have. -/
inductive Builds (pr : Project) : (found : List FileTree) → (tree : FileTree) → Prop
  | start {tree : FileTree} (hcache : BuildCache.Remembers pr.layout.cacheFile .empty tree) :
      Builds pr [] tree
  | edit {found : List FileTree} {tree tree' : FileTree} (hbuilds : Builds pr found tree)
      (hedit : Touches (fun q => Apart pr.layout.cacheFile q ∧
        ∀ a, Artifact.IsPath pr.layout.generatedOut a → Apart a q) tree tree') :
      Builds pr found tree'
  | build {found : List FileTree} {tree : FileTree} (force : Bool) (hbuilds : Builds pr found tree)
      (hclean : pr.Clean found tree force) :
      Builds pr (tree :: found) (generate tree pr.settingsFile force).tree

/-- A path was that of an artifact, and none of the builds has removed the file. -/
inductive Orphaned (pr : Project) : (found : List FileTree) → Path → Prop
  /-- Every header that the artifact came of in the build before has another entity now. -/
  | replaced {tree last : FileTree} {earlier : List FileTree} {q : Path}
      (hlast : (pr.plan last).IsArtifact q)
      (hheaders : ∀ header, (pr.plan last).Owns header q → (pr.plan tree).Reflects header)
      (hnot : ¬ (pr.plan tree).IsArtifact q) : Orphaned pr (tree :: last :: earlier) q
  /-- The path was left before, and no artifact has it now. -/
  | left {tree last : FileTree} {earlier : List FileTree} {q : Path}
      (hbefore : Orphaned pr (last :: earlier) q) (hnot : ¬ (pr.plan tree).IsArtifact q) :
      Orphaned pr (tree :: last :: earlier) q

/-- A path that was that of an artifact is that of an artifact of the last build, or orphaned. -/
def Remains (pr : Project) (found : List FileTree) (q : Path) : Prop :=
  (∃ last ∈ found.head?, (pr.plan last).IsArtifact q) ∨ pr.Orphaned found q

theorem remains_cons_iff : pr.Remains (tree :: found) q ↔
    (pr.plan tree).IsArtifact q ∨ pr.Orphaned (tree :: found) q := by
  simp [Remains]

theorem Orphaned.not_isArtifact (h : pr.Orphaned (tree :: found) q) :
    ¬ (pr.plan tree).IsArtifact q := by
  cases h with
  | replaced _ _ hnot => exact hnot
  | left _ hnot => exact hnot

/-- What remains of the builds before is orphaned, unless a header that it came of is gone. -/
theorem orphaned_cons_iff (hnot : ¬ (pr.plan tree).IsArtifact q) :
    pr.Orphaned (tree :: found) q ↔ pr.Remains found q ∧
      ∀ last ∈ found.head?, ∀ header, (pr.plan last).Owns header q →
        (pr.plan tree).Reflects header := by
  constructor
  · intro h
    cases h with
    | replaced hlast hheaders =>
        refine ⟨Or.inl ⟨_, rfl, hlast⟩, fun last hmem => ?_⟩
        cases hmem
        exact hheaders
    | left hbefore =>
        refine ⟨Or.inr hbefore, fun last hmem header howns => ?_⟩
        cases hmem
        exact absurd ⟨header, howns⟩ hbefore.not_isArtifact
  · rintro ⟨hremains, hheaders⟩
    cases found with
    | nil =>
        rcases hremains with ⟨_, hmem, -⟩ | horphaned
        · cases hmem
        · cases horphaned
    | cons last earlier =>
        rcases hremains with ⟨_, hmem, hlast⟩ | horphaned
        · cases hmem
          exact .replaced hlast (hheaders last rfl) hnot
        · exact .left horphaned hnot

/-! ## What the builds so far have left -/

/-- The tree remembers a cache with the entries of the last build, and of the paths that artifacts
had, files stand where they remain. -/
structure Settled (pr : Project) (found : List FileTree) (tree : FileTree) (cache : BuildCache) :
    Prop where
  remembers : BuildCache.Remembers pr.layout.cacheFile cache tree
  entries : ∀ header entry, cache.get? header = some entry ↔ ∃ last ∈ found.head?,
    ∃ h ∈ (pr.plan last).batch.parsed, ∃ e, h.path = header ∧ h.entity = some e ∧
      entry = (pr.plan last).entry h e
  located : ∀ t ∈ found, ∀ q, (pr.plan t).IsArtifact q → ∃ loc, tree.locate q = .ok loc
  stands : ∀ t ∈ found, ∀ q, (pr.plan t).IsArtifact q → (tree.Stands q ↔ pr.Remains found q)

theorem settled_start (hcache : BuildCache.Remembers pr.layout.cacheFile .empty tree) :
    pr.Settled [] tree .empty where
  remembers := hcache
  entries header entry := by
    constructor
    · intro hentry
      cases hentry
    · rintro ⟨_, hmem, -⟩
      cases hmem
  located _ ht := absurd ht List.not_mem_nil
  stands _ ht := absurd ht List.not_mem_nil

/-- A change of other files keeps what the builds have left. -/
theorem Settled.of_touches (hsettled : pr.Settled found tree cache) {touched : Path → Prop}
    (htouches : Touches touched tree tree')
    (hcache : ∀ q, touched q → Apart pr.layout.cacheFile q)
    (hartifacts : ∀ q, touched q → ∀ a, Artifact.IsPath pr.layout.generatedOut a → Apart a q) :
    pr.Settled found tree' cache where
  remembers := hsettled.remembers.of_touches htouches hcache
  entries := hsettled.entries
  located t ht q hq := by
    obtain ⟨loc, hloc⟩ := hsettled.located t ht q hq
    exact ⟨loc, htouches.locate_eq hloc⟩
  stands t ht q hq := by
    obtain ⟨loc, hloc⟩ := hsettled.located t ht q hq
    have hisPath := (regular pr t).isPath hq
    rw [htouches.stands_iff (fun f hf => hartifacts f hf q hisPath) hloc]
    exact hsettled.stands t ht q hq

/-- The entries of the last build are right about the headers that have their time of change. -/
theorem Settled.steady (hsettled : pr.Settled found tree' cache)
    (hclean : pr.Clean found tree force)
    (hload : ((pr.plan tree).start tree').cache = cache) :
    (pr.plan tree).Steady ((pr.plan tree).start tree') := by
  intro h hmem e he entry hentry htime
  obtain ⟨last, hlast, h', hmem', e', hpath, he', rfl⟩ :=
    (hsettled.entries h.path entry).mp (hload ▸ hentry)
  have hsame := hclean.stamped last hlast h' hmem' h hmem hpath.symm htime.symm
  have heq := entry_eq hmem hmem' hpath.symm hsame.symm he he'
  refine ⟨heq ▸ hentry, fun q hq => ?_⟩
  have hpaths : Artifact.paths e pr.layout.generatedOut =
      Artifact.paths e' pr.layout.generatedOut := congrArg CacheEntry.artifacts heq
  have hartifact : (pr.plan last).IsArtifact q :=
    ⟨h'.path, h', hmem', e', rfl, he', hpaths ▸ hq⟩
  exact (hsettled.stands last (List.mem_of_mem_head? hlast) q hartifact).mpr
    (Or.inl ⟨last, hlast, hartifact⟩)

/-- A clean build makes its output directory and renders what it planned. -/
theorem Clean.generate_eq (hclean : pr.Clean found tree force) :
    (generate tree pr.settingsFile force).tree =
        (execute (tree.makeDirs pr.layout.generatedOut).1 (pr.plan tree) force).1 ∧
      ((pr.plan tree).rendered (tree.makeDirs pr.layout.generatedOut).1 force).summary.failures =
        0 := by
  obtain ⟨summary, hresult, hzero⟩ := hclean.done
  rw [Project.generate_eq hclean.settings hclean.dir] at hresult ⊢
  cases hmade : tree.makeDirs pr.layout.generatedOut with
  | mk made result =>
      rw [hmade] at hresult
      cases result with
      | error e => cases hresult
      | ok done =>
          cases hresult
          exact ⟨rfl, hzero⟩

theorem Settled.sound (hsettled : pr.Settled found tree' cache)
    (hclean : pr.Clean found tree force)
    (hzero : ((pr.plan tree).rendered tree' force).summary.failures = 0) :
    (pr.plan tree).Sound tree' force := by
  have hload : ((pr.plan tree).start tree').cache = cache := hsettled.remembers.load_eq
  have hstart : ((pr.plan tree).start tree').summary.failures = 0 :=
    Plan.failures_pass (regular pr tree) (List.Subset.refl _) hzero
  refine ⟨regular pr tree, mem_liveHeaders_iff (List.length_eq_zero_iff.mp hstart), ?_,
    hsettled.steady hclean hload, hzero⟩
  intro header entry hentry q hq
  rw [hload] at hentry
  obtain ⟨last, -, h, hmem, e, -, he, rfl⟩ := (hsettled.entries header entry).mp hentry
  exact (regular pr last).isPath ⟨h.path, h, hmem, e, rfl, he, hq⟩

/-- What the entries of the last build list are its artifacts. -/
theorem Settled.forall_entries_iff (hsettled : pr.Settled found tree' cache) :
    (∀ header entry, cache.get? header = some entry → q ∈ entry.artifacts →
        (pr.plan tree).Reflects header) ↔
      ∀ last ∈ found.head?, ∀ header, (pr.plan last).Owns header q →
        (pr.plan tree).Reflects header := by
  constructor
  · rintro hentries last hlast header ⟨h, hmem, e, hpath, he, hq⟩
    refine hentries header ((pr.plan last).entry h e) ?_ hq
    exact (hsettled.entries _ _).mpr ⟨last, hlast, h, hmem, e, hpath, he, rfl⟩
  · intro howns header entry hentry hq
    obtain ⟨last, hlast, h, hmem, e, hpath, he, rfl⟩ := (hsettled.entries _ _).mp hentry
    exact howns last hlast header ⟨h, hmem, e, hpath, he, hq⟩

/-- After a clean build files stand where they remain. -/
theorem Settled.stands_execute_iff (hsep : Separate pr.layout)
    (hsettled : pr.Settled found tree' cache) (hsound : (pr.plan tree).Sound tree' force)
    {t : FileTree} (ht : t ∈ tree :: found) (hq : (pr.plan t).IsArtifact q) :
    (execute tree' (pr.plan tree) force).1.Stands q ↔ pr.Remains (tree :: found) q := by
  by_cases hnow : (pr.plan tree).IsArtifact q
  · exact ⟨fun _ => remains_cons_iff.mpr (Or.inl hnow), fun _ =>
      hsound.stands_of_isArtifact hsep hnow⟩
  · -- an artifact of an earlier build that is none of this one
    have hbefore : t ∈ found := by
      rcases List.mem_cons.mp ht with rfl | ht
      · exact absurd hq hnow
      · exact ht
    have hload : ((pr.plan tree).start tree').cache = cache := hsettled.remembers.load_eq
    obtain ⟨loc, hloc⟩ := hsettled.located t hbefore q hq
    rw [hsound.stands_execute_iff hsep ((regular pr t).isPath hq) hloc hnow, hload,
      hsettled.forall_entries_iff, hsettled.stands t hbefore q hq, remains_cons_iff,
      or_iff_right hnow, orphaned_cons_iff hnow]

theorem Settled.located_execute (hsep : Separate pr.layout)
    (hsettled : pr.Settled found tree' cache) (hsound : (pr.plan tree).Sound tree' force)
    {t : FileTree} (ht : t ∈ tree :: found) (hq : (pr.plan t).IsArtifact q) :
    ∃ loc, (execute tree' (pr.plan tree) force).1.locate q = .ok loc := by
  rcases List.mem_cons.mp ht with rfl | ht
  · exact (hsound.stands_of_isArtifact hsep hq).exists_locate
  · obtain ⟨loc, hloc⟩ := hsettled.located t ht q hq
    exact ⟨loc, hsound.locate_execute hloc⟩

/-- A clean build is recorded, and leaves what it should. -/
theorem Settled.build (hsep : Separate pr.layout) (hsettled : pr.Settled found tree cache)
    (hclean : pr.Clean found tree force) :
    ∃ kept, pr.Settled (tree :: found) (generate tree pr.settingsFile force).tree kept := by
  obtain ⟨hgenerate, hzero⟩ := hclean.generate_eq
  have hmade : pr.Settled found (tree.makeDirs pr.layout.generatedOut).1 cache :=
    hsettled.of_touches (FileTree.touches_makeDirs tree pr.layout.generatedOut)
      (fun _ hq => hq.elim) fun _ hq => hq.elim
  have hsound := hmade.sound hclean hzero
  obtain ⟨kept, hremembers, hentries⟩ := hsound.exists_remembers hsep hclean.saved
  rw [hgenerate]
  refine ⟨kept, hremembers, fun header entry => ?_, fun t ht q hq => ?_, fun t ht q hq => ?_⟩
  · rw [hentries]
    simp only [List.head?_cons, Option.mem_some_iff, exists_eq_left']
  · exact hmade.located_execute hsep hsound ht hq
  · exact hmade.stands_execute_iff hsep hsound ht hq

/-- Along every sequence of edits and builds, files stand where they remain. -/
theorem Builds.exists_settled (hsep : Separate pr.layout) (hbuilds : pr.Builds found tree) :
    ∃ cache, pr.Settled found tree cache := by
  induction hbuilds with
  | start hcache => exact ⟨.empty, settled_start hcache⟩
  | edit _ hedit ih =>
      obtain ⟨cache, hsettled⟩ := ih
      exact ⟨cache, hsettled.of_touches hedit (fun _ hq => hq.1) fun _ hq => hq.2⟩
  | build force _ hclean ih =>
      obtain ⟨cache, hsettled⟩ := ih
      exact hsettled.build hsep hclean

/-- **What builds leave behind.** After any edits and clean builds, of the paths that artifacts had,
files stand after a build at those that its own artifacts have and at those that are orphaned: every
header that they last came of had another entity in the build after. -/
theorem stands_iff_orphaned (hsep : Separate pr.layout) (hbuilds : pr.Builds found tree)
    (hclean : pr.Clean found tree force)
    (hknown : ∃ t ∈ tree :: found, (pr.plan t).IsArtifact q) :
    (generate tree pr.settingsFile force).tree.Stands q ↔
      (pr.plan tree).IsArtifact q ∨ pr.Orphaned (tree :: found) q := by
  obtain ⟨t, ht, hq⟩ := hknown
  obtain ⟨cache, hsettled⟩ := hbuilds.exists_settled hsep
  obtain ⟨kept, hbuilt⟩ := hsettled.build hsep hclean
  rw [hbuilt.stands t ht q hq, remains_cons_iff]

/-! ## Looking into a tree -/

variable {headers : List Path}

/-- A build is clean by the headers that are found. -/
theorem Found.clean (headers₀ : List Path) (hfound : pr.Found tree headers)
    (hstamped : ∀ last ∈ found.head?, pr.Found last headers₀ ∧
      ∀ h' ∈ (planOf last pr.layout headers₀).batch.parsed,
        ∀ h ∈ (planOf tree pr.layout headers).batch.parsed, h.path = h'.path →
          h.modified = h'.modified → last.readFile h.path = tree.readFile h.path)
    (hfailures : (execute (tree.makeDirs pr.layout.generatedOut).1
      (planOf tree pr.layout headers) force).2.2.failures = 0)
    (hsaved : ((planOf tree pr.layout headers).saved ((planOf tree pr.layout headers).rendered
      (tree.makeDirs pr.layout.generatedOut).1 force)).2 = .ok ()) :
    pr.Clean found tree force where
  settings := hfound.settings
  dir := hfound.dir
  stamped last hlast := by
    obtain ⟨hbefore, hsame⟩ := hstamped last hlast
    rw [hbefore.plan_eq, hfound.plan_eq]
    exact hsame
  done := ⟨_, (hfound.generate_eq force).2, hfailures⟩
  saved := by
    rw [hfound.plan_eq]
    exact hsaved

/-- The artifacts of a plan are the files that a build of it lists. -/
theorem Found.isArtifact_iff (hfound : pr.Found tree headers) :
    (pr.plan tree).IsArtifact q ↔
      q ∈ ((planOf tree pr.layout headers).rendered tree true).files := by
  rw [Plan.mem_files_rendered_iff, hfound.plan_eq]

end Build.Project

namespace Build.Renaming

open Family (header project seconds settingsText)

/-- The tree before the first build, with one class. -/
def sources : FileTree :=
  let empty := FileTree.ofWorkingDir "/w"
  let configured := (empty.addFile "/w/reflect.toml" (Utf8.encode settingsText) (seconds 1)).1
  (configured.addFile "/w/Source/Foo.h" (header "UFoo" "UObject") (seconds 1)).1

/-- The tree after the first build. -/
def built : FileTree :=
  (execute (sources.makeDirs project.layout.generatedOut).1
    (planOf sources project.layout ["/w/Source/Foo.h"]) false).1

/-- A file that comes of the class. -/
def oldFile : Path :=
  "/w/Generated/UFoo.generated.h"

/-- The tree after the class was given another name. -/
def renamed : FileTree :=
  (built.addFile "/w/Source/Foo.h" (header "UBar" "UObject") (seconds 2)).1

/-- The tree after the header was removed. -/
def removed : FileTree :=
  (built.settle (built.removeFile "/w/Source/Foo.h")).1

/-- What the first build looks at and does: the settings and the header are found, there is no cache, the
build is without failures and saves its cache, and the file is one of its artifacts. -/
theorem evaluated_sources :
    project.Found sources ["/w/Source/Foo.h"] ∧
      (sources.locate project.layout.cacheFile = .ok "/w/cache.json" ∧
        sources.node? "/w/cache.json" = none) ∧
      ((execute (sources.makeDirs project.layout.generatedOut).1
          (planOf sources project.layout ["/w/Source/Foo.h"]) false).2.2.failures = 0 ∧
        ((planOf sources project.layout ["/w/Source/Foo.h"]).saved
          ((planOf sources project.layout ["/w/Source/Foo.h"]).rendered
            (sources.makeDirs project.layout.generatedOut).1 false)).2 = .ok ()) ∧
      oldFile ∈
        ((planOf sources project.layout ["/w/Source/Foo.h"]).rendered sources true).files := by
  decide +kernel

theorem found_sources : project.Found sources ["/w/Source/Foo.h"] :=
  evaluated_sources.1

theorem clean_sources : project.Clean [] sources false := by
  obtain ⟨-, -, ⟨hfailures, hsaved⟩, -⟩ := evaluated_sources
  refine found_sources.clean [] ?_ hfailures hsaved
  exact fun last hlast => by cases hlast

/-- A build and then a change of the header. -/
theorem builds_of_touches {tree : FileTree}
    (htouches : Touches (· = "/w/Source/Foo.h") built tree) : project.Builds [sources] tree := by
  have hcache : project.layout.cacheFile = Path.join "/w" "cache.json" := by decide
  have hcacheName : IsEntryName "cache.json" := ⟨by decide, by decide, by decide⟩
  have hheader : ("/w/Source/Foo.h" : Path) = Path.join "/w/Source" "Foo.h" := by decide
  have hheaderName : IsEntryName "Foo.h" := ⟨by decide, by decide, by decide⟩
  have hstart : BuildCache.Remembers project.layout.cacheFile .empty sources :=
    BuildCache.remembers_empty evaluated_sources.2.1.1 evaluated_sources.2.1.2
  have hbuilt := Project.Builds.build false (.start hstart) clean_sources
  rw [(found_sources.generate_eq false).1] at hbuilt
  refine .edit hbuilt (htouches.mono fun q hq => ?_)
  rw [hq, hheader, hcache]
  refine ⟨FileTree.apart_join hcacheName hheaderName (by decide), fun a ha => ?_⟩
  exact (ha.apart_of_suffix hheaderName (by decide)).symm

/-- A tree has the settings and the given headers, those that have their time of change are as the
first build found them, and a build is without failures and saves its cache. -/
abbrev Looked (tree : FileTree) (headers : List Path) : Prop :=
  tree.readFile project.settingsFile = sources.readFile project.settingsFile ∧
    settingsDir tree project.settingsFile = project.dir ∧
    (tree.makeDirs project.layout.generatedOut).2 = .ok () ∧
    Discovery.collect tree ⟨project.layout.generatedOut, project.settings.excludeDirs⟩
      (tree.nodes.size + 1) project.layout.sourceRoot = headers ∧
    (∀ h' ∈ (planOf sources project.layout ["/w/Source/Foo.h"]).batch.parsed,
      ∀ h ∈ (planOf tree project.layout headers).batch.parsed, h.path = h'.path →
        h.modified = h'.modified → sources.readFile h.path = tree.readFile h.path) ∧
    (execute (tree.makeDirs project.layout.generatedOut).1
      (planOf tree project.layout headers) false).2.2.failures = 0 ∧
    ((planOf tree project.layout headers).saved ((planOf tree project.layout headers).rendered
      (tree.makeDirs project.layout.generatedOut).1 false)).2 = .ok ()

theorem Looked.found {tree : FileTree} {headers : List Path} (h : Looked tree headers)
    (hsorted : headers.Pairwise fun p q => Path.le p q = true) : project.Found tree headers where
  settings := (Project.readSettings_of_readFile h.1).trans found_sources.settings
  dir := h.2.1
  made := h.2.2.1
  collected := h.2.2.2.1
  sorted := hsorted

theorem Looked.clean {tree : FileTree} {headers : List Path} (h : Looked tree headers)
    (hfound : project.Found tree headers) : project.Clean [sources] tree false := by
  apply hfound.clean ["/w/Source/Foo.h"] _ h.2.2.2.2.2.1 h.2.2.2.2.2.2
  intro last hlast
  cases hlast
  exact ⟨found_sources, h.2.2.2.2.1⟩

theorem isArtifact_sources : (project.plan sources).IsArtifact oldFile :=
  found_sources.isArtifact_iff.mpr evaluated_sources.2.2.2

theorem looked_removed : Looked removed [] ∧
    oldFile ∉ ((planOf removed project.layout []).rendered removed true).files := by
  decide +kernel

theorem found_removed : project.Found removed [] :=
  looked_removed.1.found .nil

/-- The file of a header that was removed is gone after the next build. -/
theorem stands_iff_orphaned_removed :
    Separate project.layout ∧ project.Builds [sources] removed ∧
      project.Clean [sources] removed false ∧ (project.plan sources).IsArtifact oldFile ∧
      ¬ (generate removed project.settingsFile false).tree.Stands oldFile := by
  have hbuilds : project.Builds [sources] removed :=
    builds_of_touches (FileTree.touches_settle fun _ hremoved =>
      FileTree.touches_removeFile hremoved)
  have hclean := looked_removed.1.clean found_removed
  have hnot : ¬ (project.plan removed).IsArtifact oldFile := fun hartifact =>
    looked_removed.2 (found_removed.isArtifact_iff.mp hartifact)
  refine ⟨Family.separate, hbuilds, hclean, isArtifact_sources, fun hstands => ?_⟩
  rcases (Project.stands_iff_orphaned Family.separate hbuilds hclean
    ⟨sources, by simp, isArtifact_sources⟩).mp hstands with hnow | horphaned
  · exact hnot hnow
  · -- the only header that it came of is gone
    obtain ⟨header, howns⟩ := isArtifact_sources
    have hheaders := ((Project.orphaned_cons_iff hnot).mp horphaned).2
    obtain ⟨h, hmem, -⟩ := hheaders sources rfl header howns
    rw [found_removed.plan_eq] at hmem
    cases hmem

theorem looked_renamed : Looked renamed ["/w/Source/Foo.h"] ∧
    oldFile ∉
      ((planOf renamed project.layout ["/w/Source/Foo.h"]).rendered renamed true).files ∧
    (execute (renamed.makeDirs project.layout.generatedOut).1
      (planOf renamed project.layout ["/w/Source/Foo.h"]) false).1.Stands oldFile := by
  decide +kernel

theorem found_renamed : project.Found renamed ["/w/Source/Foo.h"] :=
  looked_renamed.1.found (List.pairwise_singleton _ _)

/-- **A file outlives the name of its class.** The class was given another name and its header a new
time of change; the next build is without failures and saves its cache, and the file of the old name
is no artifact any more, but stands. -/
theorem renamed_class_leaves_file :
    project.Builds [sources] renamed ∧ project.Clean [sources] renamed false ∧
      (project.plan sources).IsArtifact oldFile ∧ ¬ (project.plan renamed).IsArtifact oldFile ∧
      (generate renamed project.settingsFile false).tree.Stands oldFile := by
  refine ⟨builds_of_touches (FileTree.touches_addFile _ _ _ _),
    looked_renamed.1.clean found_renamed, isArtifact_sources, ?_, ?_⟩
  · exact fun hartifact => looked_renamed.2.1 (found_renamed.isArtifact_iff.mp hartifact)
  · rw [(found_renamed.generate_eq false).1]
    exact looked_renamed.2.2

end Build.Renaming

end Registrar
