import Registrar.Proofs.IncrementalBuild

/-!
# Which files a build leaves standing

A build without failures records every header that has an entity, and its artifacts stand
(`Build.Plan.done_pass`). The files that it removes are known by the entries of headers that have no
entity any more. So of the other paths that artifacts may have, those stand after the build that
stood before it and that no such entry lists (`Build.Plan.Sound.stands_execute_iff`).
-/

namespace Registrar

open FileTree (Apart IsEntryName Touches)

/-! ## Standing files -/

namespace FileTree

variable {tree before after : FileTree} {p : Path} {loc : Location}

/-- A file stands at a path. -/
def Stands (tree : FileTree) (p : Path) : Prop :=
  ∃ read, tree.readFile p = .ok read

instance (tree : FileTree) (p : Path) : Decidable (tree.Stands p) :=
  match hread : tree.readFile p with
  | .ok read => isTrue ⟨read, hread⟩
  | .error _ => isFalse fun ⟨_, hok⟩ => by
      rw [hread] at hok
      cases hok

theorem Holds.stands {t : Text} (h : tree.Holds p t) : tree.Stands p := by
  obtain ⟨modified, hread⟩ := h
  exact ⟨_, hread⟩

theorem Stands.exists_locate (h : tree.Stands p) : ∃ loc, tree.locate p = .ok loc := by
  obtain ⟨read, hread⟩ := h
  obtain ⟨loc, hloc, -⟩ := readFile_eq_ok_iff.mp hread
  exact ⟨loc, hloc⟩

theorem stands_iff (hloc : tree.locate p = .ok loc) :
    tree.Stands p ↔ ∃ contents modified, tree.node? loc = some (.file contents modified) := by
  constructor
  · rintro ⟨⟨contents, modified⟩, hread⟩
    obtain ⟨loc', hloc', hnode⟩ := readFile_eq_ok_iff.mp hread
    cases hloc.symm.trans hloc'
    exact ⟨contents, modified, hnode⟩
  · rintro ⟨contents, modified, hnode⟩
    exact ⟨(contents, modified), readFile_eq_ok_iff.mpr ⟨loc, hloc, hnode⟩⟩

/-- A file comes and goes by the paths that lead to it only. -/
theorem Touches.stands_iff {touched : Path → Prop} (h : Touches touched before after)
    (hapart : ∀ q, touched q → Apart p q) (hloc : before.locate p = .ok loc) :
    after.Stands p ↔ before.Stands p := by
  have hafter := h.locate_eq hloc
  rw [FileTree.stands_iff hloc, FileTree.stands_iff hafter]
  rcases h.frame loc with hsame | ⟨hnone, hmade⟩ | ⟨q, hq, hqloc⟩
  · rw [hsame]
  · rw [hnone, hmade]
    constructor <;> rintro ⟨_, _, heq⟩ <;> cases heq
  · exact absurd hqloc (hapart q hq after loc hafter)

theorem Stands.of_touches {touched : Path → Prop} (h : before.Stands p)
    (htouches : Touches touched before after) (hapart : ∀ q, touched q → Apart p q) :
    after.Stands p := by
  obtain ⟨loc, hloc⟩ := h.exists_locate
  exact (htouches.stands_iff hapart hloc).mpr h

theorem not_stands_of_removeFile (h : before.removeFile p = .ok after) : ¬ after.Stands p := by
  have htouches := touches_removeFile h
  rw [removeFile] at h
  split at h
  · cases h
  · next loc hloc =>
    rw [FileTree.stands_iff (htouches.locate_eq hloc)]
    split at h
    · cases h
    · split at h
      · cases h
      · cases h
        rw [node?_erase, if_pos rfl]
        rintro ⟨_, _, heq⟩
        cases heq

/-- A file that stands can be removed. -/
theorem not_stands_of_removeFile_error {e : FileError} (h : tree.removeFile p = .error e) :
    ¬ tree.Stands p := by
  intro hstands
  obtain ⟨loc, hloc⟩ := hstands.exists_locate
  obtain ⟨contents, modified, hnode⟩ := (FileTree.stands_iff hloc).mp hstands
  have hdirectory : tree.node? loc ≠ some .directory := by
    rw [hnode]
    intro heq
    cases heq
  rw [removeFile, hloc] at h
  dsimp only at h
  rw [dif_neg hdirectory, if_neg (by rw [hnode]; exact Option.some_ne_none _)] at h
  cases h

end FileTree

/-! ## Paths with the same components -/

/-- The components of a path that ends in a name end in that name. -/
theorem Path.getLast?_components_join (dir : Path) {name : Text} (hname : IsEntryName name) :
    (dir.join name).components.getLast? = some (.name name) := by
  obtain ⟨before, hsplit⟩ := FileTree.exists_splitWhere_join dir hname.slash
  have hlast : ((dir.join name).splitWhere (· == '/')).getLast? = some name := by
    rw [hsplit, List.getLast?_concat]
  have hbody : (dir.join name).parts.body.getLast? = some name := by
    unfold parts
    split
    · next heq =>
      rw [heq, List.getLast?_cons_cons] at hlast
      exact hlast
    · next body heq =>
      rw [heq] at hlast
      cases body with
      | nil =>
          -- the only part is a dot, which is no name of an entry
          obtain rfl : ['.'] = name := Option.some.inj hlast
          cases hname.idle
      | cons part body =>
          rw [List.getLast?_cons_cons] at hlast
          exact hlast
    · exact hlast
  obtain ⟨front, hfront⟩ := List.getLast?_eq_some_iff.mp hbody
  unfold components Parts.components
  rw [hfront, List.filter_append, List.filter_cons_of_pos (by rw [hname.idle]; rfl),
    List.filter_nil, List.map_append, ← List.append_assoc, List.map_singleton,
    List.getLast?_concat, Parts.componentOf, if_neg hname.back]

/-- Paths of artifacts are told apart by their components. -/
theorem Artifact.IsPath.eq_of_same {outDir p q : Path} (hp : IsPath outDir p)
    (hq : IsPath outDir q) (h : p.same q = true) : p = q := by
  obtain ⟨name, hname, suffix, hsuffix, rfl⟩ := hp
  obtain ⟨name', hname', suffix', hsuffix', rfl⟩ := hq
  have hlast := congrArg List.getLast? (eq_of_beq h)
  rw [Path.getLast?_components_join outDir (isEntryName hname hsuffix),
    Path.getLast?_components_join outDir (isEntryName hname' hsuffix')] at hlast
  rw [Path.Component.name.inj (Option.some.inj hlast)]

namespace Build

/-! ## Removing files -/

section Removing

variable {out p q : Path} {files : List Path} (state : FileTree × List Text) {loc : Location}

/-- A stale file does not stand any more, unless it is a file of this build. -/
theorem stands_removeStale_iff (hfiles : ∀ f ∈ files, Artifact.IsPath out f)
    (hp : Artifact.IsPath out p) (hq : Artifact.IsPath out q)
    (hloc : state.1.locate q = .ok loc) :
    (removeStale files state p).1.Stands q ↔ state.1.Stands q ∧ (q = p → q ∈ files) := by
  by_cases heq : q = p
  · subst heq
    by_cases hmem : q ∈ files
    · have hsame : files.any q.same = true :=
        List.any_eq_true.mpr ⟨q, hmem, beq_self_eq_true _⟩
      unfold removeStale
      dsimp only
      rw [if_pos hsame]
      exact ⟨fun h => ⟨h, fun _ => hmem⟩, fun h => h.1⟩
    · have hsame : ¬ files.any q.same = true := by
        intro hany
        obtain ⟨f, hf, hsame⟩ := List.any_eq_true.mp hany
        exact hmem (hq.eq_of_same (hfiles f hf) hsame ▸ hf)
      have hremoved : ¬ (removeStale files state q).1.Stands q := by
        unfold removeStale
        dsimp only
        rw [if_neg hsame]
        split
        · next hremove => exact FileTree.not_stands_of_removeFile hremove
        · next hremove => exact FileTree.not_stands_of_removeFile_error hremove
        · next hremove => exact FileTree.not_stands_of_removeFile_error hremove
      exact ⟨fun h => absurd h hremoved, fun h => absurd (h.2 rfl) hmem⟩
  · have hapart : ∀ f, f = p ∧ f ∉ files → Apart q f := fun f hf =>
      hf.1 ▸ hq.apart hp heq
    rw [(touches_removeStale files state p).stands_iff hapart hloc]
    exact ⟨fun h => ⟨h, fun hsame => absurd hsame heq⟩, fun h => h.1⟩

theorem stands_removeStale_foldl_iff {stale : List Path}
    (hfiles : ∀ f ∈ files, Artifact.IsPath out f) (hstale : ∀ f ∈ stale, Artifact.IsPath out f)
    (hq : Artifact.IsPath out q) (hloc : state.1.locate q = .ok loc) :
    (stale.foldl (removeStale files) state).1.Stands q ↔
      state.1.Stands q ∧ (q ∈ stale → q ∈ files) := by
  induction stale generalizing state with
  | nil => exact ⟨fun h => ⟨h, fun hmem => absurd hmem List.not_mem_nil⟩, fun h => h.1⟩
  | cons p rest ih =>
      have hloc' := (touches_removeStale files state p).locate_eq hloc
      rw [List.foldl_cons, ih _ (fun f hf => hstale f (List.mem_cons_of_mem _ hf)) hloc',
        stands_removeStale_iff state hfiles (hstale p List.mem_cons_self) hq hloc, List.mem_cons,
        or_imp, and_assoc]

end Removing

namespace Plan

variable {p : Plan} {tree : FileTree} {s : Progress} {h h' : ParsedHeader} {e : Entity}
  {force : Bool} {header q : Path}

/-- A path is that of an artifact of the header at a path. -/
def Owns (p : Plan) (header q : Path) : Prop :=
  ∃ h ∈ p.batch.parsed, ∃ e, h.path = header ∧ h.entity = some e ∧
    q ∈ Artifact.paths e p.layout.generatedOut

/-- A path is that of an artifact of some header. -/
def IsArtifact (p : Plan) (q : Path) : Prop :=
  ∃ header, p.Owns header q

/-- The header at a path has an entity. -/
def Reflects (p : Plan) (header : Path) : Prop :=
  ∃ h ∈ p.batch.parsed, ∃ e, h.path = header ∧ h.entity = some e

/-- The parsed headers are told apart by their paths, and their entities have names without a
slash. Two headers may have entities of the same name. -/
structure Regular (p : Plan) : Prop where
  unique : ∀ h ∈ p.batch.parsed, ∀ h' ∈ p.batch.parsed, h.path = h'.path → h = h'
  slash : ∀ h ∈ p.batch.parsed, ∀ e, h.entity = some e → '/' ∉ e.name

theorem Regular.isPath (hp : p.Regular) (h : p.IsArtifact q) :
    Artifact.IsPath p.layout.generatedOut q := by
  obtain ⟨_, h, hmem, e, -, he, hq⟩ := h
  exact Artifact.isPath_of_mem_paths (hp.slash h hmem e he) hq

/-! ## Steps without failures -/

theorem failures_step (hp : p.Regular) (hmem : h ∈ p.batch.parsed)
    (hzero : (p.step force s h).summary.failures = 0) : s.summary.failures = 0 := by
  cases he : h.entity with
  | none =>
      rw [step_of_none force he] at hzero
      exact hzero
  | some e =>
      cases p.step_result force s he (hp.slash h hmem e he) with
      | skipped _ _ _ _ hfailures => exact hfailures ▸ hzero
      | rendered _ _ _ hfailures => exact hfailures hzero
      | failed _ _ _ hfailures => exact absurd hzero hfailures

/-- A file that stands does so after a step without failures. -/
theorem stands_step (hp : p.Regular) (hmem : h ∈ p.batch.parsed)
    (hzero : (p.step force s h).summary.failures = 0)
    (hq : Artifact.IsPath p.layout.generatedOut q) (hstands : s.tree.Stands q) :
    (p.step force s h).tree.Stands q := by
  cases he : h.entity with
  | none =>
      rw [step_of_none force he]
      exact hstands
  | some e =>
      have hslash := hp.slash h hmem e he
      cases p.step_result force s he hslash with
      | skipped _ _ htree =>
          rw [htree]
          exact hstands
      | failed _ _ _ hfailures => exact absurd hzero hfailures
      | rendered htouches hheld =>
          by_cases hown : q ∈ Artifact.paths e p.layout.generatedOut
          · rw [← path_rendering p h e] at hown
            obtain ⟨a, ha, rfl⟩ := List.mem_map.mp hown
            exact (hheld a ha).stands
          · apply hstands.of_touches htouches
            intro f hf
            exact hq.apart (Artifact.isPath_of_mem_paths hslash hf) fun heq => hown (heq ▸ hf)

/-- A step without failures changes the entry of its own header only. -/
theorem get?_step (hp : p.Regular) (hmem : h ∈ p.batch.parsed)
    (hother : ∀ e, h.entity = some e → h.path ≠ header) :
    (p.step force s h).cache.get? header = s.cache.get? header := by
  cases he : h.entity with
  | none => rw [step_of_none force he]
  | some e =>
      cases p.step_result force s he (hp.slash h hmem e he) with
      | skipped _ _ _ hcache => rw [hcache]
      | failed _ _ hcache => rw [hcache]
      | rendered _ _ hcache =>
          rw [hcache, BuildCache.get?, BuildCache.record, Dict.get?_insert,
            if_neg (hother e he), BuildCache.get?]

/-- A header is recorded, and its artifacts stand. -/
def Done (p : Plan) (s : Progress) (h : ParsedHeader) (e : Entity) : Prop :=
  s.cache.get? h.path = some (p.entry h e) ∧
    ∀ q ∈ Artifact.paths e p.layout.generatedOut, s.tree.Stands q

/-- An entry that has the time of change of its header is right about it. -/
def Steady (p : Plan) (s : Progress) : Prop :=
  ∀ h ∈ p.batch.parsed, ∀ e, h.entity = some e → ∀ entry, s.cache.get? h.path = some entry →
    entry.modified = h.modified → p.Done s h e

/-- The header of a step without failures is done. -/
theorem done_of_step (hp : p.Regular) (hsteady : p.Steady s) (hmem : h ∈ p.batch.parsed)
    (he : h.entity = some e) (hzero : (p.step force s h).summary.failures = 0) :
    p.Done (p.step force s h) h e := by
  cases p.step_result force s he (hp.slash h hmem e he) with
  | skipped _ hunchanged htree hcache =>
      obtain ⟨entry, hentry, htime⟩ := BuildCache.exists_of_isUnchanged hunchanged
      unfold Done
      rw [htree, hcache]
      exact hsteady h hmem e he entry hentry htime
  | failed _ _ _ hfailures => exact absurd hzero hfailures
  | rendered _ hheld hcache =>
      refine ⟨?_, fun q hq => ?_⟩
      · rw [hcache, BuildCache.get?, BuildCache.record, Dict.get?_insert, if_pos rfl]
      · rw [← path_rendering p h e] at hq
        obtain ⟨a, ha, rfl⟩ := List.mem_map.mp hq
        exact (hheld a ha).stands

/-- A header that is done stays so, whichever header is next. -/
theorem Done.step (hp : p.Regular) (hsteady : p.Steady s) (hdone : p.Done s h e)
    (hmem : h ∈ p.batch.parsed) (he : h.entity = some e) (hmem' : h' ∈ p.batch.parsed)
    (hzero : (p.step force s h').summary.failures = 0) : p.Done (p.step force s h') h e := by
  by_cases hpath : h'.path = h.path
  · obtain rfl := hp.unique h' hmem' h hmem hpath
    exact done_of_step hp hsteady hmem he hzero
  · refine ⟨?_, fun q hq => ?_⟩
    · rw [get?_step hp hmem' fun _ _ => hpath]
      exact hdone.1
    · have hisPath := Artifact.isPath_of_mem_paths (hp.slash h hmem e he) hq
      exact stands_step hp hmem' hzero hisPath (hdone.2 q hq)

theorem Steady.step (hp : p.Regular) (hsteady : p.Steady s) (hmem : h ∈ p.batch.parsed)
    (hzero : (p.step force s h).summary.failures = 0) : p.Steady (p.step force s h) := by
  intro g hg e he entry hentry htime
  by_cases hpath : h.path = g.path
  · obtain rfl := hp.unique h hmem g hg hpath
    exact done_of_step hp hsteady hmem he hzero
  · rw [get?_step hp hmem fun _ _ => hpath] at hentry
    exact (hsteady g hg e he entry hentry htime).step hp hsteady hg he hmem hzero

/-! ## A pass without failures -/

variable {hs : List ParsedHeader}

theorem failures_pass (hp : p.Regular) (hsub : hs ⊆ p.batch.parsed)
    (hzero : (p.pass force hs s).summary.failures = 0) : s.summary.failures = 0 := by
  induction hs generalizing s with
  | nil => exact hzero
  | cons h rest ih =>
      obtain ⟨hmem, hrest⟩ := List.cons_subset.mp hsub
      exact failures_step hp hmem (ih hrest hzero)

/-- After a pass without failures every header that it came by is done. -/
theorem done_pass (hp : p.Regular) (hsub : hs ⊆ p.batch.parsed) (hsteady : p.Steady s)
    (hzero : (p.pass force hs s).summary.failures = 0) :
    (∀ h ∈ hs, ∀ e, h.entity = some e → p.Done (p.pass force hs s) h e) ∧
      ∀ h ∈ p.batch.parsed, ∀ e, h.entity = some e → p.Done s h e →
        p.Done (p.pass force hs s) h e := by
  induction hs generalizing s with
  | nil => exact ⟨fun h hh => absurd hh List.not_mem_nil, fun _ _ _ _ hdone => hdone⟩
  | cons g rest ih =>
      obtain ⟨hmem, hrest⟩ := List.cons_subset.mp hsub
      have hstep : (p.step force s g).summary.failures = 0 := failures_pass hp hrest hzero
      obtain ⟨hothers, hkept⟩ := ih hrest (hsteady.step hp hmem hstep) hzero
      refine ⟨fun h hh e he => ?_, fun h hh e he hdone => ?_⟩
      · rcases List.mem_cons.mp hh with rfl | hh
        · exact hkept h hmem e he (done_of_step hp hsteady hmem he hstep)
        · exact hothers h hh e he
      · exact hkept h hh e he (hdone.step hp hsteady hh he hmem hstep)

/-- The entries of paths without an entity are left as they are. -/
theorem get?_pass (hp : p.Regular) (hsub : hs ⊆ p.batch.parsed) (hnone : ¬ p.Reflects header) :
    (p.pass force hs s).cache.get? header = s.cache.get? header :=
  pass_induction (motive := fun s' => s'.cache.get? header = s.cache.get? header) hsub
    (fun _ h hmem heq => (get?_step hp hmem fun e he hpath =>
      hnone ⟨h, hmem, e, hpath, he⟩).trans heq) rfl

/-- A pass writes artifacts of its headers only. -/
theorem touches_paths_pass (hp : p.Regular) (hsub : hs ⊆ p.batch.parsed) :
    Touches (fun q => ∃ h ∈ hs, ∃ e, h.entity = some e ∧
      q ∈ Artifact.paths e p.layout.generatedOut) s.tree (p.pass force hs s).tree := by
  induction hs generalizing s with
  | nil => exact .refl _ _
  | cons h rest ih =>
      obtain ⟨hmem, hrest⟩ := List.cons_subset.mp hsub
      have hfirst := touches_paths_step (p := p) (s := s) force (hp.slash h hmem)
      refine (hfirst.mono fun q hq => ?_).trans ((ih hrest).mono fun q hq => ?_)
      · exact ⟨h, List.mem_cons_self, hq⟩
      · obtain ⟨g, hg, hpaths⟩ := hq
        exact ⟨g, List.mem_cons_of_mem _ hg, hpaths⟩

theorem touches_isArtifact_pass (hp : p.Regular) (hsub : hs ⊆ p.batch.parsed) :
    Touches p.IsArtifact s.tree (p.pass force hs s).tree := by
  apply (touches_paths_pass hp hsub).mono
  rintro q ⟨h, hmem, e, he, hq⟩
  exact ⟨h.path, h, hsub hmem, e, rfl, he, hq⟩

/-- The files that a build lists are its artifacts. -/
theorem mem_files_rendered_iff : q ∈ (p.rendered tree force).files ↔ p.IsArtifact q := by
  constructor
  · refine pass_induction (motive := fun s => q ∈ s.files → p.IsArtifact q)
      (List.Subset.refl p.batch.parsed) (fun s h hmem hbefore hq => ?_)
      (fun hq => absurd hq List.not_mem_nil)
    cases he : h.entity with
    | none =>
        rw [step_of_none force he] at hq
        exact hbefore hq
    | some e =>
        rw [files_step he] at hq
        rcases List.mem_append.mp hq with hq | hq
        · exact hbefore hq
        · exact ⟨h.path, h, hmem, e, rfl, he, hq⟩
  · rintro ⟨_, h, hmem, e, -, he, hq⟩
    exact mem_files_pass force hmem he hq

/-! ## After the last header -/

/-- The tree without the files of headers that are gone. -/
def swept (p : Plan) (s : Progress) : FileTree :=
  (((s.cache.stale (liveHeaders p.headers p.batch.parsed)).flatMap (·.artifacts)).foldl
    (removeStale s.files) (s.tree, [])).1

/-- The tree with the cache of a build, and whether that could be saved. -/
def saved (p : Plan) (s : Progress) : FileTree × Except BuildError Unit :=
  (s.cache.prune (liveHeaders p.headers p.batch.parsed)).save (p.swept s) p.layout.cacheFile

theorem finished_tree (p : Plan) (s : Progress) : (p.finished s).tree = (p.saved s).1 := by
  unfold finished Progress.finish saved swept
  dsimp only
  rw [removeStale_foldl_fst _ _ _ _ []]

theorem touches_saved (p : Plan) (s : Progress) :
    Touches (· = p.layout.cacheFile) (p.swept s) (p.saved s).1 := by
  rcases BuildCache.save_cases (s.cache.prune (liveHeaders p.headers p.batch.parsed)) (p.swept s)
    p.layout.cacheFile with ⟨-, hnothing⟩ | ⟨htouches, -⟩
  · exact hnothing.mono fun _ hf => hf.elim
  · exact htouches

theorem locate_saved {loc : Location} (hloc : s.tree.locate q = .ok loc) :
    (p.saved s).1.locate q = .ok loc :=
  (touches_saved p s).locate_eq
    ((touches_removeStale_foldl s.files _ (s.tree, [])).locate_eq hloc)

/-- What comes after the last header takes away the stale files only. -/
theorem stands_finished_iff (hsep : Separate p.layout) {loc : Location}
    (hfiles : ∀ f ∈ s.files, Artifact.IsPath p.layout.generatedOut f)
    (hstale : ∀ f ∈ (s.cache.stale (liveHeaders p.headers p.batch.parsed)).flatMap (·.artifacts),
      Artifact.IsPath p.layout.generatedOut f)
    (hq : Artifact.IsPath p.layout.generatedOut q) (hloc : s.tree.locate q = .ok loc)
    (files : List Path) :
    (updateProject (p.finished s).tree p.layout files).1.Stands q ↔ s.tree.Stands q ∧
      (q ∈ (s.cache.stale (liveHeaders p.headers p.batch.parsed)).flatMap (·.artifacts) →
        q ∈ s.files) := by
  have hswept : (p.swept s).locate q = .ok loc :=
    (touches_removeStale_foldl s.files _ (s.tree, [])).locate_eq hloc
  have hproject := touches_updateProject (p.saved s).1 p.layout files
  rw [finished_tree,
    hproject.stands_iff (fun f hf => (hsep.project f hf).2 q hq) (locate_saved hloc),
    (touches_saved p s).stands_iff (fun f hf => hf ▸ (hsep.cache q hq).symm) hswept]
  exact stands_removeStale_foldl_iff (s.tree, []) hfiles hstale hq hloc

/-! ## The whole build -/

/-- A build without failures, which finds entries that are right about the headers that have their
time of change. The headers that keep their entries are those with an entity. -/
structure Sound (p : Plan) (tree : FileTree) (force : Bool) : Prop where
  regular : p.Regular
  live : ∀ header, header ∈ liveHeaders p.headers p.batch.parsed ↔ p.Reflects header
  isPath : ∀ header entry, (p.start tree).cache.get? header = some entry → ∀ q ∈ entry.artifacts,
    Artifact.IsPath p.layout.generatedOut q
  steady : p.Steady (p.start tree)
  failures : (p.rendered tree force).summary.failures = 0

namespace Sound

theorem done (hp : p.Sound tree force) (hmem : h ∈ p.batch.parsed) (he : h.entity = some e) :
    p.Done (p.rendered tree force) h e :=
  (done_pass hp.regular (List.Subset.refl _) hp.steady hp.failures).1 h hmem e he

theorem stands_rendered (hp : p.Sound tree force) (hq : p.IsArtifact q) :
    (p.rendered tree force).tree.Stands q := by
  obtain ⟨_, h, hmem, e, -, he, hpath⟩ := hq
  exact (hp.done hmem he).2 q hpath

/-- The stale files are those that the entries of headers without an entity list. -/
theorem mem_stale_iff (hp : p.Sound tree force) :
    q ∈ ((p.rendered tree force).cache.stale
        (liveHeaders p.headers p.batch.parsed)).flatMap (·.artifacts) ↔
      ∃ header entry, ¬ p.Reflects header ∧ (p.start tree).cache.get? header = some entry ∧
        q ∈ entry.artifacts := by
  have hget : ∀ header, ¬ p.Reflects header →
      (p.rendered tree force).cache.get? header = (p.start tree).cache.get? header := fun _ hnone =>
    get?_pass hp.regular (List.Subset.refl _) hnone
  rw [List.mem_flatMap]
  constructor
  · rintro ⟨entry, hentry, hq⟩
    obtain ⟨header, hdead, hentry⟩ := BuildCache.mem_stale_iff.mp hentry
    rw [hp.live] at hdead
    exact ⟨header, entry, hdead, hget header hdead ▸ hentry, hq⟩
  · rintro ⟨header, entry, hdead, hentry, hq⟩
    refine ⟨entry, BuildCache.mem_stale_iff.mpr ⟨header, ?_, ?_⟩, hq⟩
    · rw [hp.live]
      exact hdead
    · rw [hget header hdead]
      exact hentry

theorem stands_execute_iff_rendered (hp : p.Sound tree force) (hsep : Separate p.layout)
    (hq : Artifact.IsPath p.layout.generatedOut q) {loc : Location}
    (hloc : (p.rendered tree force).tree.locate q = .ok loc) :
    (execute tree p force).1.Stands q ↔ (p.rendered tree force).tree.Stands q ∧
      ((∃ header entry, ¬ p.Reflects header ∧ (p.start tree).cache.get? header = some entry ∧
        q ∈ entry.artifacts) → p.IsArtifact q) := by
  have hfiles : ∀ f ∈ (p.rendered tree force).files,
      Artifact.IsPath p.layout.generatedOut f := fun f hf =>
    hp.regular.isPath (mem_files_rendered_iff.mp hf)
  rw [execute_fst, stands_finished_iff hsep hfiles ?_ hq hloc, hp.mem_stale_iff,
    mem_files_rendered_iff]
  intro f hf
  obtain ⟨header, entry, -, hentry, hf⟩ := hp.mem_stale_iff.mp hf
  exact hp.isPath header entry hentry f hf

/-- The artifacts of a build stand after it. -/
theorem stands_of_isArtifact (hp : p.Sound tree force) (hsep : Separate p.layout)
    (hq : p.IsArtifact q) : (execute tree p force).1.Stands q := by
  obtain ⟨loc, hloc⟩ := (hp.stands_rendered hq).exists_locate
  rw [hp.stands_execute_iff_rendered hsep (hp.regular.isPath hq) hloc]
  exact ⟨hp.stands_rendered hq, fun _ => hq⟩

theorem locate_execute (hp : p.Sound tree force) {loc : Location}
    (hloc : tree.locate q = .ok loc) : (execute tree p force).1.locate q = .ok loc := by
  have hrendered : (p.rendered tree force).tree.locate q = .ok loc :=
    (touches_isArtifact_pass (s := p.start tree) hp.regular (List.Subset.refl _)).locate_eq hloc
  rw [execute_fst, finished_tree]
  exact (touches_updateProject _ _ _).locate_eq (locate_saved hrendered)

/-- **What a build sweeps away.** Of the paths that are no artifacts of the build, those stand after
it that stood before it, unless they are listed for a header that has no entity. -/
theorem stands_execute_iff (hp : p.Sound tree force) (hsep : Separate p.layout)
    (hq : Artifact.IsPath p.layout.generatedOut q) {loc : Location}
    (hloc : tree.locate q = .ok loc) (hnot : ¬ p.IsArtifact q) :
    (execute tree p force).1.Stands q ↔ tree.Stands q ∧
      ∀ header entry, (p.start tree).cache.get? header = some entry → q ∈ entry.artifacts →
        p.Reflects header := by
  have htouches : Touches p.IsArtifact tree (p.rendered tree force).tree :=
    touches_isArtifact_pass (s := p.start tree) hp.regular (List.Subset.refl _)
  have hapart : ∀ f, p.IsArtifact f → Apart q f := fun f hf =>
    hq.apart (hp.regular.isPath hf) fun heq => hnot (heq ▸ hf)
  rw [hp.stands_execute_iff_rendered hsep hq (htouches.locate_eq hloc),
    htouches.stands_iff hapart hloc]
  refine and_congr_right fun _ => ⟨fun hstale header entry hentry hlisted => ?_, ?_⟩
  · apply Classical.byContradiction
    intro hdead
    exact hnot (hstale ⟨header, entry, hdead, hentry, hlisted⟩)
  · rintro hkept ⟨header, entry, hdead, hentry, hlisted⟩
    exact absurd (hkept header entry hentry hlisted) hdead

/-- A build that saves its cache has an entry for every header with an entity, and no other. -/
theorem exists_remembers (hp : p.Sound tree force) (hsep : Separate p.layout)
    (hsaved : (p.saved (p.rendered tree force)).2 = .ok ()) :
    ∃ cache, BuildCache.Remembers p.layout.cacheFile cache (execute tree p force).1 ∧
      ∀ header entry, cache.get? header = some entry ↔
        ∃ h ∈ p.batch.parsed, ∃ e, h.path = header ∧ h.entity = some e ∧ entry = p.entry h e := by
  refine ⟨(p.rendered tree force).cache.prune (liveHeaders p.headers p.batch.parsed), ?_, ?_⟩
  · rw [execute_fst, finished_tree]
    rcases BuildCache.save_cases ((p.rendered tree force).cache.prune
      (liveHeaders p.headers p.batch.parsed)) (p.swept (p.rendered tree force))
      p.layout.cacheFile with ⟨hfailed, -⟩ | ⟨-, hholds⟩
    · exact absurd hsaved hfailed
    · exact (BuildCache.remembers_of_holds hholds).of_touches (touches_updateProject _ _ _)
        fun f hf => (hsep.project f hf).1
  · intro header entry
    rw [BuildCache.get?_prune_eq_some_iff, hp.live]
    constructor
    · rintro ⟨⟨h, hmem, e, rfl, he⟩, hentry⟩
      refine ⟨h, hmem, e, rfl, he, ?_⟩
      exact Option.some.inj (hentry.symm.trans (hp.done hmem he).1)
    · rintro ⟨h, hmem, e, rfl, he, rfl⟩
      exact ⟨⟨h, hmem, e, rfl, he⟩, (hp.done hmem he).1⟩

end Sound

end Plan

end Build

end Registrar
