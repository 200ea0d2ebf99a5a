import Registrar.Proofs.OrphanedArtifacts

/-!
# Forced builds

A forced build renders every header, in the order of paths. Two headers may have entities of one
name and so write to the same path; then the last of them decides what the file holds
(`Build.Plan.LastAt`). What the build removes afterwards is none of its own files, because the
entries of a cache that builds of the project have saved list paths of artifacts only
(`Build.Project.Saved.isPath`). So a forced build refreshes every artifact that can be written, and
leaves all other files alone (`Build.Project.forced_refreshes`).
-/

namespace Registrar

open FileTree (Apart Touches)

/-! ## The order of paths -/

namespace Path

theorem Component.name_le_name_iff {a b : Text} :
    (name a).le (name b) = true ↔ ¬ b < a := by
  rw [le, Bool.not_eq_true', decide_eq_false_iff_not]

theorem Component.le_trans {a b c : Component} (hab : a.le b = true) (hbc : b.le c = true) :
    a.le c = true := by
  cases a with
  | name a =>
      cases b with
      | name b =>
          cases c with
          | name c =>
              rw [name_le_name_iff] at hab hbc ⊢
              exact List.not_lt.mpr (List.le_trans (List.not_lt.mp hab) (List.not_lt.mp hbc))
          | root | current | parent => simp [le, rank] at hbc
      | root | current | parent => simp [le, rank] at hab
  | root | current | parent => cases b <;> cases c <;> simp_all [le, rank]

theorem Component.le_total (a b : Component) : a.le b = true ∨ b.le a = true := by
  cases a with
  | name a =>
      cases b with
      | name b =>
          rw [name_le_name_iff, name_le_name_iff]
          exact (List.le_total a b).imp List.not_lt.mpr List.not_lt.mpr
      | root | current | parent => simp [le, rank]
  | root | current | parent => cases b <;> simp [le, rank]

theorem Component.le_antisymm {a b : Component} (hab : a.le b = true) (hba : b.le a = true) :
    a = b := by
  cases a with
  | name a =>
      cases b with
      | name b =>
          rw [name_le_name_iff] at hab hba
          rw [List.le_antisymm (List.not_lt.mp hab) (List.not_lt.mp hba)]
      | root | current | parent => simp [le, rank] at hab
  | root | current | parent => cases b <;> simp_all [le, rank]

theorem componentsLe_trans {as bs cs : List Component} (hab : componentsLe as bs = true)
    (hbc : componentsLe bs cs = true) : componentsLe as cs = true := by
  induction as generalizing bs cs with
  | nil => rfl
  | cons a as ih =>
      cases bs with
      | nil => cases hab
      | cons b bs =>
          cases cs with
          | nil => cases hbc
          | cons c cs =>
              rw [componentsLe] at hab hbc ⊢
              by_cases hsame : a = b
              · subst hsame
                rw [if_pos rfl] at hab
                by_cases hnext : a = c
                · rw [if_pos hnext] at hbc ⊢
                  exact ih hab hbc
                · rw [if_neg hnext] at hbc ⊢
                  exact hbc
              · rw [if_neg hsame] at hab
                by_cases hnext : b = c
                · rw [← hnext, if_neg hsame]
                  exact hab
                · rw [if_neg hnext] at hbc
                  -- the first components do not come back to where they started
                  have hne : a ≠ c := fun heq => hsame (Component.le_antisymm hab (heq ▸ hbc))
                  rw [if_neg hne]
                  exact Component.le_trans hab hbc

theorem componentsLe_total (as bs : List Component) :
    componentsLe as bs = true ∨ componentsLe bs as = true := by
  induction as generalizing bs with
  | nil => exact Or.inl rfl
  | cons a as ih =>
      cases bs with
      | nil => exact Or.inr rfl
      | cons b bs =>
          rw [componentsLe, componentsLe]
          by_cases hsame : a = b
          · rw [if_pos hsame, if_pos hsame.symm]
            exact ih bs
          · rw [if_neg hsame, if_neg (Ne.symm hsame)]
            exact Component.le_total a b

theorem componentsLe_antisymm {as bs : List Component} (hab : componentsLe as bs = true)
    (hba : componentsLe bs as = true) : as = bs := by
  induction as generalizing bs with
  | nil =>
      cases bs with
      | nil => rfl
      | cons b bs => cases hba
  | cons a as ih =>
      cases bs with
      | nil => cases hab
      | cons b bs =>
          rw [componentsLe] at hab hba
          by_cases hsame : a = b
          · rw [if_pos hsame] at hab
            rw [if_pos hsame.symm] at hba
            rw [hsame, ih hab hba]
          · rw [if_neg hsame] at hab
            rw [if_neg (Ne.symm hsame)] at hba
            exact absurd (Component.le_antisymm hab hba) hsame

/-- Sorting puts paths in order. -/
theorem pairwise_mergeSort (paths : List Path) :
    (paths.mergeSort le).Pairwise fun p q => p.le q = true := by
  apply List.pairwise_mergeSort
  · exact fun _ _ _ => componentsLe_trans
  · intro p q
    rw [Bool.or_eq_true]
    exact componentsLe_total _ _

end Path

namespace Build

namespace Plan

variable {p : Plan} {tree : FileTree} {s : Progress} {h : ParsedHeader} {e : Entity} {q : Path}
  {force : Bool} {hs before : List ParsedHeader}

/-! ## The last header with a path -/

/-- The artifact `a` is what the last of the parsed headers with an artifact at the path `q` is
rendered to there. The headers `before` come before it, and of its own artifacts `earlier`. -/
structure LastAt (p : Plan) (q : Path) (before : List ParsedHeader) (h : ParsedHeader) (e : Entity)
    (earlier : List Artifact) (a : Artifact) : Prop where
  parsed : ∃ after, p.batch.parsed = before ++ h :: after ∧ ∀ h' ∈ after, ∀ e',
    h'.entity = some e' → q ∉ Artifact.paths e' p.layout.generatedOut
  entity : h.entity = some e
  rendered : ∃ later, p.rendering h e = earlier ++ a :: later
  path : a.path = q

/-- The tree in which a forced build comes to an artifact: the headers `before` are done, and so are
the artifacts `earlier` of the next one. -/
def treeAt (p : Plan) (tree : FileTree) (before : List ParsedHeader) (earlier : List Artifact) :
    FileTree :=
  (earlier.foldl Emission.add ⟨(p.pass true before (p.start tree)).tree, [], {}, true⟩).tree

/-- The headers after one are passed from where its step leads. -/
theorem rendered_of_append {after : List ParsedHeader}
    (hparsed : p.batch.parsed = before ++ h :: after) (tree : FileTree) (force : Bool) :
    p.rendered tree force =
      p.pass force after (p.step force (p.pass force before (p.start tree)) h) := by
  unfold Plan.rendered
  rw [hparsed]
  exact List.foldl_append

/-- A header has an artifact at a path. -/
def WritesTo (p : Plan) (q : Path) (h : ParsedHeader) : Prop :=
  ∃ e, h.entity = some e ∧ q ∈ Artifact.paths e p.layout.generatedOut

/-- Of the headers that have an artifact at a path, one is the last. -/
theorem exists_last_writer (hwrites : ∃ h ∈ hs, p.WritesTo q h) :
    ∃ before h after, hs = before ++ h :: after ∧ p.WritesTo q h ∧
      ∀ h' ∈ after, ¬ p.WritesTo q h' := by
  induction hs with
  | nil =>
      obtain ⟨h, hmem, -⟩ := hwrites
      cases hmem
  | cons g rest ih =>
      by_cases hlater : ∃ h ∈ rest, p.WritesTo q h
      · obtain ⟨before, h, after, rfl, hlast⟩ := ih hlater
        exact ⟨g :: before, h, after, rfl, hlast⟩
      · obtain ⟨h, hmem, hw⟩ := hwrites
        rcases List.mem_cons.mp hmem with rfl | hmem
        · exact ⟨[], h, rest, rfl, hw, fun h' hh' hw' => hlater ⟨h', hh', hw'⟩⟩
        · exact absurd ⟨h, hmem, hw⟩ hlater

/-- Every artifact is that of a last header. -/
theorem exists_lastAt (hq : p.IsArtifact q) : ∃ before h e earlier a,
    p.LastAt q before h e earlier a := by
  obtain ⟨_, h, hmem, e, -, he, hpath⟩ := hq
  obtain ⟨before, h, after, hparsed, ⟨e, he, hpath⟩, hlast⟩ :=
    exists_last_writer ⟨h, hmem, e, he, hpath⟩
  rw [← path_rendering p h e] at hpath
  obtain ⟨a, ha, hpath⟩ := List.mem_map.mp hpath
  obtain ⟨earlier, later, hrendered⟩ := List.append_of_mem ha
  exact ⟨before, h, e, earlier, a,
    ⟨after, hparsed, fun h' hh' e' he' hq' => hlast h' hh' ⟨e', he', hq'⟩⟩, he,
    ⟨later, hrendered⟩, hpath⟩

namespace LastAt

variable {earlier : List Artifact} {a : Artifact}

theorem mem_parsed (hlast : p.LastAt q before h e earlier a) : h ∈ p.batch.parsed := by
  obtain ⟨after, hparsed, -⟩ := hlast.parsed
  rw [hparsed]
  exact List.mem_append_right _ List.mem_cons_self

theorem mem_paths (hlast : p.LastAt q before h e earlier a) :
    q ∈ Artifact.paths e p.layout.generatedOut := by
  obtain ⟨later, hrendered⟩ := hlast.rendered
  rw [← hlast.path]
  apply path_mem_paths (h := h)
  rw [hrendered]
  exact List.mem_append_right _ List.mem_cons_self

theorem isArtifact (hlast : p.LastAt q before h e earlier a) : p.IsArtifact q :=
  ⟨h.path, h, hlast.mem_parsed, e, rfl, hlast.entity, hlast.mem_paths⟩

/-- The last artifact at a path is held after the step of its header, unless it could not be
written. -/
theorem holds_step_or_error (hp : p.Regular) (hlast : p.LastAt q before h e earlier a) :
    (p.step true (p.pass true before (p.start tree)) h).tree.Holds q a.contents ∨
      ∃ err, writeIfChanged (p.treeAt tree before earlier) a = .error err := by
  obtain ⟨later, hrendered⟩ := hlast.rendered
  have hslash := hp.slash h hlast.mem_parsed e hlast.entity
  rw [step_of_changed hlast.entity rfl, render_eq]
  generalize hreached : p.counted (p.pass true before (p.start tree)) e = reached
  have htree : reached.tree = (p.pass true before (p.start tree)).tree := by
    rw [← hreached]
    rfl
  -- the artifacts before this one lead to the tree of its turn
  have hturn : (earlier.foldl Emission.add ⟨reached.tree, reached.log, reached.summary, true⟩).tree =
      p.treeAt tree before earlier := by
    unfold treeAt
    apply (Emission.foldl_agree _ _).1
    · exact htree
    · rfl
  have hdone : (p.emission reached h e).tree = (later.foldl Emission.add
      ((earlier.foldl Emission.add ⟨reached.tree, reached.log, reached.summary, true⟩).add
        a)).tree := by
    unfold emission
    rw [hrendered, List.foldl_append, List.foldl_cons]
  rcases Emission.holds_add_or_error
    (earlier.foldl Emission.add ⟨reached.tree, reached.log, reached.summary, true⟩) a with
    hheld | ⟨err, herror⟩
  · left
    show (p.emission reached h e).tree.Holds q a.contents
    rw [hdone, ← hlast.path]
    -- and those after it lead elsewhere
    apply hheld.of_touches (Emission.touches_foldl later _)
    have hapart := Artifact.pairwise_apart e hslash p.layout.generatedOut
    rw [← path_rendering p h e, hrendered, List.map_append, List.map_cons,
      List.pairwise_append] at hapart
    exact (List.pairwise_cons.mp hapart.2.1).1
  · exact Or.inr ⟨err, hturn ▸ herror⟩

/-- The headers after the last one with a path leave what it has there. -/
theorem holds_rendered_or_error (hp : p.Regular) (hlast : p.LastAt q before h e earlier a) :
    (p.rendered tree true).tree.Holds q a.contents ∨
      ∃ err, writeIfChanged (p.treeAt tree before earlier) a = .error err := by
  obtain ⟨after, hparsed, hothers⟩ := hlast.parsed
  have hsub : after ⊆ p.batch.parsed := by
    rw [hparsed]
    exact fun g hg => List.mem_append_right _ (List.mem_cons_of_mem _ hg)
  rw [rendered_of_append hparsed]
  refine (hlast.holds_step_or_error hp).imp_left fun hheld => ?_
  apply hheld.of_touches (touches_paths_pass hp hsub)
  rintro f ⟨g, hg, e', he', hf⟩
  have hpath := Artifact.isPath_of_mem_paths (hp.slash g (hsub hg) e' he') hf
  apply (hp.isPath hlast.isArtifact).apart hpath
  intro heq
  exact hothers g hg e' he' (heq ▸ hf)

end LastAt

/-! ## What the entries of a cache list -/

/-- The entries of a cache list paths that artifacts may have. -/
def ListsArtifacts (p : Plan) (cache : BuildCache) : Prop :=
  ∀ header entry, cache.get? header = some entry → ∀ q ∈ entry.artifacts,
    Artifact.IsPath p.layout.generatedOut q

theorem ListsArtifacts.step (hp : p.Regular) (hmem : h ∈ p.batch.parsed)
    (hlists : p.ListsArtifacts s.cache) : p.ListsArtifacts (p.step force s h).cache := by
  cases he : h.entity with
  | none =>
      rw [step_of_none force he]
      exact hlists
  | some e =>
      have hslash := hp.slash h hmem e he
      cases p.step_result force s he hslash with
      | skipped _ _ _ hcache =>
          rw [hcache]
          exact hlists
      | failed _ _ hcache =>
          rw [hcache]
          exact hlists
      | rendered _ _ hcache =>
          intro header entry hentry
          rw [hcache, BuildCache.get?, BuildCache.record, Dict.get?_insert] at hentry
          split at hentry
          · cases hentry
            exact fun q hq => Artifact.isPath_of_mem_paths hslash hq
          · exact hlists header entry hentry

theorem ListsArtifacts.rendered (hp : p.Regular) (force : Bool)
    (hlists : p.ListsArtifacts (p.start tree).cache) :
    p.ListsArtifacts (p.rendered tree force).cache :=
  pass_induction (motive := fun s => p.ListsArtifacts s.cache) (List.Subset.refl _)
    (fun _ _ hmem hs => hs.step hp hmem) hlists

end Plan

namespace Project

variable {pr : Project} {tree : FileTree} {cache : BuildCache} {q : Path}

/-- The headers of a plan are in the order of their paths. -/
theorem pairwise_parsed (pr : Project) (tree : FileTree) :
    (pr.plan tree).batch.parsed.Pairwise fun h h' => h.path.le h'.path = true := by
  rw [← List.pairwise_map (f := ParsedHeader.path) (R := fun p q => p.le q = true)]
  exact (Path.pairwise_mergeSort _).sublist (Batch.path_sublist tree _ _)

/-- The cache that a build finds when it has made the output directory. -/
def cacheIn (pr : Project) (tree : FileTree) : BuildCache :=
  (BuildCache.load (tree.makeDirs pr.layout.generatedOut).1 pr.layout.cacheFile).1

/-- The caches that builds of the project save, from none at all. -/
inductive Saved (pr : Project) : BuildCache → Prop
  | absent : Saved pr .empty
  | build {tree : FileTree} (force : Bool) (hfound : Saved pr (pr.cacheIn tree)) :
      Saved pr ((pr.plan tree).finished ((pr.plan tree).rendered
        (tree.makeDirs pr.layout.generatedOut).1 force)).cache

/-- What builds save lists paths of artifacts only. -/
theorem Saved.isPath (hsaved : pr.Saved cache) : ∀ header entry,
    cache.get? header = some entry → ∀ q ∈ entry.artifacts,
      Artifact.IsPath pr.layout.generatedOut q := by
  induction hsaved with
  | absent =>
      intro header entry hentry
      cases hentry
  | @build tree force _ ih =>
      intro header entry hentry
      exact Plan.ListsArtifacts.rendered (regular pr tree) force ih header entry
        (BuildCache.get?_of_prune hentry)

/-- The cache file and the project files are none of the artifacts of a plan. -/
structure Clear (p : Plan) : Prop where
  cache : ∀ q, p.IsArtifact q → Apart p.layout.cacheFile q
  project : ∀ f, p.layout.project = some f ∨ p.layout.filters = some f → ∀ q, p.IsArtifact q →
    Apart q f

theorem Clear.of_separate {pr : Project} (hsep : Separate pr.layout) (tree : FileTree) :
    Clear (pr.plan tree) := by
  have hpath := regular pr tree
  refine ⟨fun q hq => ?_, fun f hf q hq => ?_⟩
  · exact hsep.cache q (hpath.isPath hq)
  · exact (hsep.project f hf).2 q (hpath.isPath hq)

/-- A path is listed in an entry of a cache whose header is gone or has no entity any more. -/
def Dropped (p : Plan) (cache : BuildCache) (q : Path) : Prop :=
  ∃ header entry, cache.get? header = some entry ∧
    header ∉ liveHeaders p.headers p.batch.parsed ∧ q ∈ entry.artifacts

/-- An entry that is dropped is one that the build found: only headers with an entity are recorded,
and those stay. -/
theorem get?_rendered_of_dead {force : Bool} {header : Path}
    (hdead : header ∉ liveHeaders (pr.plan tree).headers (pr.plan tree).batch.parsed) :
    ((pr.plan tree).rendered (tree.makeDirs pr.layout.generatedOut).1 force).cache.get? header =
      (pr.cacheIn tree).get? header :=
  Plan.get?_pass (regular pr tree) (List.Subset.refl _)
    fun hreflects => hdead (mem_liveHeaders_of_reflects hreflects)

/-- The stale files of a build are those of the entries that it drops. -/
theorem mem_stale_iff_dropped {force : Bool} : q ∈ (((pr.plan tree).rendered
      (tree.makeDirs pr.layout.generatedOut).1 force).cache.stale
        (liveHeaders (pr.plan tree).headers (pr.plan tree).batch.parsed)).flatMap (·.artifacts) ↔
    Dropped (pr.plan tree) (pr.cacheIn tree) q := by
  rw [List.mem_flatMap]
  constructor
  · rintro ⟨entry, hentry, hlisted⟩
    obtain ⟨header, hdead, hget⟩ := BuildCache.mem_stale_iff.mp hentry
    exact ⟨header, entry, get?_rendered_of_dead hdead ▸ hget, hdead, hlisted⟩
  · rintro ⟨header, entry, hget, hdead, hlisted⟩
    refine ⟨entry, BuildCache.mem_stale_iff.mpr ⟨header, hdead, ?_⟩, hlisted⟩
    exact (get?_rendered_of_dead hdead).trans hget

/-- A build writes its artifacts, removes files of dropped entries, saves its cache and changes the
project files. -/
theorem touches_execute (pr : Project) (tree : FileTree) (force : Bool) :
    Touches (fun q => (pr.plan tree).IsArtifact q ∨
        Dropped (pr.plan tree) (pr.cacheIn tree) q ∨ q = pr.layout.cacheFile ∨
        pr.layout.project = some q ∨ pr.layout.filters = some q)
      (tree.makeDirs pr.layout.generatedOut).1
      (execute (tree.makeDirs pr.layout.generatedOut).1 (pr.plan tree) force).1 := by
  have hpass : Touches (pr.plan tree).IsArtifact (tree.makeDirs pr.layout.generatedOut).1
      ((pr.plan tree).rendered (tree.makeDirs pr.layout.generatedOut).1 force).tree :=
    Plan.touches_isArtifact_pass (s := (pr.plan tree).start _) (regular pr tree)
      (List.Subset.refl _)
  obtain ⟨swept, hswept, hsaved⟩ := Progress.finish_cases
    ((pr.plan tree).rendered (tree.makeDirs pr.layout.generatedOut).1 force)
    (liveHeaders (pr.plan tree).headers (pr.plan tree).batch.parsed) pr.layout.cacheFile
  rw [Plan.execute_fst]
  refine (hpass.mono fun q hq => Or.inl hq).trans (.trans (?_ : Touches _ _ swept) (.trans ?_
    ((touches_updateProject _ _ _).mono fun q hq => Or.inr (Or.inr (Or.inr hq)))))
  · exact hswept.mono fun q hq => Or.inr (Or.inl (mem_stale_iff_dropped.mp hq.1))
  · rcases hsaved with hnothing | ⟨hwritten, -⟩
    · exact hnothing.mono fun q hq => hq.elim
    · exact hwritten.mono fun q hq => Or.inr (Or.inr (Or.inl hq))

/-- A build that gets to its end has made the output directory and carried out its plan. -/
theorem generate_of_ok (hsettings : readSettings tree pr.settingsFile = .ok pr.settings)
    (hdir : settingsDir tree pr.settingsFile = pr.dir) {force : Bool} {summary : Summary}
    (hresult : (generate tree pr.settingsFile force).result = .ok summary) :
    (tree.makeDirs pr.layout.generatedOut).2 = .ok () ∧
      (generate tree pr.settingsFile force).tree =
        (execute (tree.makeDirs pr.layout.generatedOut).1 (pr.plan tree) force).1 ∧
      summary = (execute (tree.makeDirs pr.layout.generatedOut).1 (pr.plan tree) force).2.2 := by
  rw [generate_eq hsettings hdir] at hresult ⊢
  cases hdirs : tree.makeDirs pr.layout.generatedOut with
  | mk made result =>
      rw [hdirs] at hresult
      cases result with
      | error e => cases hresult
      | ok done => exact ⟨rfl, rfl, (Except.ok.inj hresult).symm⟩

/-- **A forced build refreshes everything.** Whatever the tree, and whatever cache builds of the
project have saved: after a forced build that gets to its end, every path that a parsed header has
an artifact at holds what the last such header in the order of paths is rendered to, unless that
could not be written. Only these paths, those of dropped entries, the cache file and the project
files are written or removed. -/
theorem forced_refreshes (hsettings : readSettings tree pr.settingsFile = .ok pr.settings)
    (hdir : settingsDir tree pr.settingsFile = pr.dir) (hclear : Clear (pr.plan tree))
    (hsaved : pr.Saved (pr.cacheIn tree)) {summary : Summary}
    (hresult : (generate tree pr.settingsFile true).result = .ok summary) :
    ((pr.plan tree).batch.parsed.Pairwise fun h h' => h.path.le h'.path = true) ∧
    (∀ q, (pr.plan tree).IsArtifact q → ∃ before h e earlier a,
      (pr.plan tree).LastAt q before h e earlier a ∧
        ((generate tree pr.settingsFile true).tree.Holds q a.contents ∨
          ∃ err, writeIfChanged ((pr.plan tree).treeAt (tree.makeDirs pr.layout.generatedOut).1
            before earlier) a = .error err)) ∧
    Touches (fun q => (pr.plan tree).IsArtifact q ∨
        Dropped (pr.plan tree) (pr.cacheIn tree) q ∨ q = pr.layout.cacheFile ∨
        pr.layout.project = some q ∨ pr.layout.filters = some q)
      tree (generate tree pr.settingsFile true).tree := by
  have hmade := FileTree.touches_makeDirs tree pr.layout.generatedOut
  rw [(generate_of_ok hsettings hdir hresult).2.1]
  refine ⟨pairwise_parsed pr tree, fun q hq => ?_, ?_⟩
  · obtain ⟨before, h, e, earlier, a, hlast⟩ := Plan.exists_lastAt hq
    refine ⟨before, h, e, earlier, a, hlast, ?_⟩
    refine (hlast.holds_rendered_or_error (regular pr tree)).imp_left fun hheld => ?_
    rw [Plan.execute_fst]
    exact Plan.holds_finished (hclear.cache q hq) (fun f hf => hclear.project f hf q hq)
      (Plan.ListsArtifacts.rendered (regular pr tree) true hsaved.isPath)
      ((regular pr tree).isPath hq) (Plan.mem_files_rendered_iff.mpr hq) _ hheld
  · exact (hmade.mono fun _ hq => hq.elim).trans (touches_execute pr tree true)

end Project

namespace Renaming

open Family (project)

/-- A file that comes of the class under its new name. -/
def newFile : Path :=
  "/w/Generated/UBar.generated.h"

theorem cacheIn_renamed : project.cacheIn renamed =
    ((planOf sources project.layout ["/w/Source/Foo.h"]).finished
      ((planOf sources project.layout ["/w/Source/Foo.h"]).rendered
        (sources.makeDirs project.layout.generatedOut).1 false)).cache ∧
    newFile ∈
      ((planOf renamed project.layout ["/w/Source/Foo.h"]).rendered renamed true).files := by
  decide +kernel

theorem cacheIn_sources : project.cacheIn sources = .empty := by
  decide +kernel

/-- A forced build after the class was given another name. -/
theorem forced_refreshes_renamed :
    readSettings renamed project.settingsFile = .ok project.settings ∧
      settingsDir renamed project.settingsFile = project.dir ∧
      Project.Clear (project.plan renamed) ∧ project.Saved (project.cacheIn renamed) ∧
      (∃ summary, (generate renamed project.settingsFile true).result = .ok summary) ∧
      ∃ before h e earlier a, (project.plan renamed).LastAt newFile before h e earlier a ∧
        ((generate renamed project.settingsFile true).tree.Holds newFile a.contents ∨
          ∃ err, writeIfChanged ((project.plan renamed).treeAt
            (renamed.makeDirs project.layout.generatedOut).1 before earlier) a = .error err) := by
  have hclear : Project.Clear (project.plan renamed) := .of_separate Family.separate renamed
  have hsaved : project.Saved (project.cacheIn renamed) := by
    rw [cacheIn_renamed.1, ← found_sources.plan_eq]
    apply Project.Saved.build
    rw [cacheIn_sources]
    exact .absent
  have hresult := (found_renamed.generate_eq true).2
  have hartifact : (project.plan renamed).IsArtifact newFile :=
    found_renamed.isArtifact_iff.mpr cacheIn_renamed.2
  exact ⟨found_renamed.settings, found_renamed.dir, hclear, hsaved, ⟨_, hresult⟩,
    (Project.forced_refreshes found_renamed.settings found_renamed.dir hclear hsaved hresult).2.1
      newFile hartifact⟩

end Renaming

end Build

end Registrar
