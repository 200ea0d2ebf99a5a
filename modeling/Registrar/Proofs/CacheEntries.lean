import Registrar.Proofs.ForcedBuild

/-!
# The entries of a cache

A build takes an entry over from the cache that it finds, or records it for a header that it has
rendered (`Build.Plan.get?_pass_cases`). A header is recorded when all of its artifacts are in
place, so a header with an entity has an entry with its time of change unless one of its artifacts
could not be written (`Build.Plan.noted_rendered`). In the end the entries of headers that are gone
or have no entity any more are dropped, and a header that could not be parsed keeps what it had
(`Build.Project.cache_after_build`).

Every entry goes back to the build that recorded it (`Build.Project.Kept.exists_record`). Where a
header that has a recorded time also has the bytes it had then, such an entry is what rendering the
header would record (`Build.Project.Kept.entry_eq`).
-/

namespace Registrar

open FileTree (Apart Touches)

theorem BuildCache.get?_record (cache : BuildCache) (header : Path) (entry : CacheEntry)
    (key : Path) :
    (cache.record header entry).get? key = if header = key then some entry else cache.get? key :=
  Dict.get?_insert cache.entries header entry key

namespace Build

/-- Where not all artifacts are in place, one of them could not be written at its turn. -/
theorem Emission.exists_error_of_incomplete {artifacts : List Artifact} {s : Emission}
    (hs : s.complete = true) (hdone : (artifacts.foldl add s).complete = false) :
    ∃ earlier a later err, artifacts = earlier ++ a :: later ∧
      writeIfChanged (earlier.foldl add s).tree a = .error err := by
  induction artifacts generalizing s with
  | nil =>
      rw [List.foldl_nil, hs] at hdone
      cases hdone
  | cons a rest ih =>
      cases hwrite : writeIfChanged s.tree a with
      | error err => exact ⟨[], a, rest, err, rfl, hwrite⟩
      | ok made =>
          have hcomplete : (s.add a).complete = true := by
            obtain ⟨tree, written⟩ := made
            unfold add
            rw [hwrite]
            cases written <;> exact hs
          obtain ⟨earlier, b, later, err, rfl, herr⟩ := ih hcomplete hdone
          exact ⟨a :: earlier, b, later, err, rfl, herr⟩

theorem Emission.failures_le_foldl (artifacts : List Artifact) (s : Emission) :
    s.summary.failures ≤ (artifacts.foldl add s).summary.failures := by
  induction artifacts generalizing s with
  | nil => exact Nat.le_refl _
  | cons a rest ih =>
      refine Nat.le_trans ?_ (ih (s.add a))
      rcases add_cases s a with ⟨-, -, -, hcount⟩ | ⟨-, -, hcount⟩
      · exact Nat.le_of_eq hcount.symm
      · rw [hcount]
        exact Nat.le_succ _

/-- An artifact that could not be written at its turn is counted. -/
theorem Emission.failures_lt_of_error {earlier : List Artifact} {a : Artifact} {s : Emission}
    {err : BuildError} (h : writeIfChanged (earlier.foldl add s).tree a = .error err)
    (later : List Artifact) :
    s.summary.failures < ((earlier ++ a :: later).foldl add s).summary.failures := by
  rw [List.foldl_append, List.foldl_cons]
  have hadd : ((earlier.foldl add s).add a).summary.failures =
      (earlier.foldl add s).summary.failures + 1 := by
    generalize earlier.foldl add s = turn at h
    unfold add
    rw [h]
  have hbefore := failures_le_foldl earlier s
  have hafter := failures_le_foldl later ((earlier.foldl add s).add a)
  omega

namespace Plan

variable {p : Plan} {tree : FileTree} {s : Progress} {h h' : ParsedHeader} {e : Entity}
  {force : Bool} {header : Path} {hs before after : List ParsedHeader}

/-- A header with an entity is left alone or rendered. -/
theorem step_cases (p : Plan) (force : Bool) (s : Progress) (he : h.entity = some e) :
    (s.cache.isUnchanged s.tree h.path h.modified = true ∧
      p.step force s h =
        { p.counted s e with
          summary := { (p.counted s e).summary with
            skipped := s.summary.skipped + (Artifact.paths e p.layout.generatedOut).length } }) ∨
    ((!force && s.cache.isUnchanged s.tree h.path h.modified) = false ∧
      p.step force s h =
        { p.counted s e with
          tree := (p.emission (p.counted s e) h e).tree
          log := (p.emission (p.counted s e) h e).log
          summary := (p.emission (p.counted s e) h e).summary
          cache :=
            if (p.emission (p.counted s e) h e).complete then
              s.cache.record h.path (p.entry h e)
            else s.cache }) := by
  cases hskip : !force && s.cache.isUnchanged s.tree h.path h.modified with
  | true =>
      obtain ⟨hforce, hunchanged⟩ := Bool.and_eq_true_iff.mp hskip
      obtain rfl : force = false := by simpa using hforce
      exact Or.inl ⟨hunchanged, step_of_unchanged he hunchanged⟩
  | false => exact Or.inr ⟨rfl, (step_of_changed he hskip).trans (render_eq _ _ _ _)⟩

/-! ## Artifacts that could not be written -/

/-- The tree in which a build comes to an artifact: the headers `before` are done, and so are the
artifacts `earlier` of the next one. -/
def reached (p : Plan) (tree : FileTree) (force : Bool) (before : List ParsedHeader)
    (earlier : List Artifact) : FileTree :=
  (earlier.foldl Emission.add ⟨(p.pass force before (p.start tree)).tree, [], {}, true⟩).tree

/-- The build comes to the artifact `a` of the header `h` after the headers `before` and after the
artifacts `earlier` of `h`. -/
structure Turn (p : Plan) (before : List ParsedHeader) (h : ParsedHeader) (earlier : List Artifact)
    (a : Artifact) : Prop where
  parsed : ∃ after, p.batch.parsed = before ++ h :: after
  rendered : ∃ e later, h.entity = some e ∧ p.rendering h e = earlier ++ a :: later

/-- An artifact of a header that was not left alone could not be written. -/
def Unwritten (p : Plan) (tree : FileTree) (force : Bool) (h : ParsedHeader) (a : Artifact) :
    Prop :=
  ∃ before earlier err, p.Turn before h earlier a ∧
    (!force && (p.pass force before (p.start tree)).cache.isUnchanged
      (p.pass force before (p.start tree)).tree h.path h.modified) = false ∧
    writeIfChanged (p.reached tree force before earlier) a = .error err

/-- The artifacts of a header before a turn lead to the tree that is reached then. -/
theorem tree_foldl_earlier (p : Plan) (tree : FileTree) (force : Bool)
    (before : List ParsedHeader) (e : Entity) (earlier : List Artifact) :
    (earlier.foldl Emission.add
      ⟨(p.counted (p.pass force before (p.start tree)) e).tree,
        (p.counted (p.pass force before (p.start tree)) e).log,
        (p.counted (p.pass force before (p.start tree)) e).summary, true⟩).tree =
      p.reached tree force before earlier := by
  unfold reached
  apply (Emission.foldl_agree _ _).1
  · rfl
  · rfl

theorem failures_le_step (p : Plan) (force : Bool) (s : Progress) (h : ParsedHeader) :
    s.summary.failures ≤ (p.step force s h).summary.failures := by
  cases he : h.entity with
  | none => exact Nat.le_of_eq (congrArg (·.summary.failures) (step_of_none force he).symm)
  | some e =>
      rcases p.step_cases force s he with ⟨-, hstep⟩ | ⟨-, hstep⟩
      · rw [hstep]
        exact Nat.le_refl _
      · rw [hstep]
        exact Emission.failures_le_foldl (p.rendering h e)
          ⟨(p.counted s e).tree, (p.counted s e).log, (p.counted s e).summary, true⟩

theorem failures_le_pass (p : Plan) (force : Bool) (hs : List ParsedHeader) (s : Progress) :
    s.summary.failures ≤ (p.pass force hs s).summary.failures := by
  induction hs generalizing s with
  | nil => exact Nat.le_refl _
  | cons h rest ih => exact Nat.le_trans (failures_le_step p force s h) (ih _)

/-- A build counts the artifacts that could not be written beside the headers that could not be
parsed. -/
theorem Unwritten.failures_lt {a : Artifact} (hunwritten : p.Unwritten tree force h a) :
    p.batch.failures.length < (p.rendered tree force).summary.failures := by
  obtain ⟨before, earlier, err, ⟨⟨after, hparsed⟩, e, later, he, hrendering⟩, hskip, herr⟩ :=
    hunwritten
  rw [← tree_foldl_earlier p tree force before e] at herr
  have hstep : (p.pass force before (p.start tree)).summary.failures <
      (p.step force (p.pass force before (p.start tree)) h).summary.failures := by
    rw [step_of_changed he hskip, render_eq]
    unfold emission
    rw [hrendering]
    exact Emission.failures_lt_of_error herr later
  have hbefore : p.batch.failures.length ≤ (p.pass force before (p.start tree)).summary.failures :=
    failures_le_pass p force before (p.start tree)
  have hafter := failures_le_pass p force after
    (p.step force (p.pass force before (p.start tree)) h)
  rw [rendered_of_append hparsed]
  omega

/-! ## Entries with the current time -/

/-- A header has an entry with its time of change. -/
def Noted (s : Progress) (h : ParsedHeader) : Prop :=
  ∃ entry, s.cache.get? h.path = some entry ∧ entry.modified = h.modified

theorem noted_of_record {s' : Progress} (p : Plan)
    (hcache : s'.cache = s.cache.record h.path (p.entry h e)) : Noted s' h :=
  ⟨p.entry h e, by rw [hcache, BuildCache.get?_record, if_pos rfl], rfl⟩

/-- A header that is noted stays so, whichever header is next. -/
theorem Noted.step (hp : p.Regular) (hmem : h ∈ p.batch.parsed) (hmem' : h' ∈ p.batch.parsed)
    (hnoted : Noted s h) : Noted (p.step force s h') h := by
  by_cases hpath : h'.path = h.path
  · obtain rfl := hp.unique h' hmem' h hmem hpath
    cases he : h'.entity with
    | none =>
        rw [step_of_none force he]
        exact hnoted
    | some e =>
        cases p.step_result force s he (hp.slash h' hmem' e he) with
        | skipped _ _ _ hcache =>
            unfold Noted
            rw [hcache]
            exact hnoted
        | failed _ _ hcache =>
            unfold Noted
            rw [hcache]
            exact hnoted
        | rendered _ _ hcache => exact noted_of_record p hcache
  · unfold Noted
    rw [get?_step hp hmem' fun _ _ => hpath]
    exact hnoted

/-- A header is noted at its step, unless one of its artifacts could not be written. -/
theorem noted_step_or_unwritten (tree : FileTree) (force : Bool)
    (hparsed : p.batch.parsed = before ++ h :: after) (he : h.entity = some e) :
    Noted (p.step force (p.pass force before (p.start tree)) h) h ∨
      ∃ a, p.Unwritten tree force h a := by
  rcases p.step_cases force (p.pass force before (p.start tree)) he with
    ⟨hunchanged, hstep⟩ | ⟨hskip, hstep⟩
  · left
    obtain ⟨entry, hentry, htime⟩ := BuildCache.exists_of_isUnchanged hunchanged
    rw [hstep]
    exact ⟨entry, hentry, htime⟩
  · cases hcomplete : (p.emission (p.counted (p.pass force before (p.start tree)) e) h
        e).complete with
    | true =>
        rw [hstep, hcomplete]
        exact Or.inl (noted_of_record p rfl)
    | false =>
        right
        obtain ⟨earlier, a, later, err, hrendering, herr⟩ :=
          Emission.exists_error_of_incomplete rfl hcomplete
        rw [tree_foldl_earlier] at herr
        exact ⟨a, before, earlier, err, ⟨⟨after, hparsed⟩, e, later, he, hrendering⟩, hskip, herr⟩

/-- After the last header, every header with an entity is noted whose artifacts could be written. -/
theorem noted_rendered (hp : p.Regular) (hmem : h ∈ p.batch.parsed) (he : h.entity = some e)
    (hwritten : ∀ a, ¬ p.Unwritten tree force h a) : Noted (p.rendered tree force) h := by
  obtain ⟨before, after, hparsed⟩ := List.append_of_mem hmem
  have hsub : after ⊆ p.batch.parsed := by
    rw [hparsed]
    exact fun g hg => List.mem_append_right _ (List.mem_cons_of_mem _ hg)
  have hstep := (noted_step_or_unwritten tree force hparsed he).resolve_right
    fun hunwritten => hunwritten.elim fun a ha => hwritten a ha
  rw [rendered_of_append hparsed]
  exact pass_induction (motive := fun s => Noted s h) hsub
    (fun _ _ hmem' hnoted => hnoted.step hp hmem hmem') hstep

/-! ## Where entries come from -/

/-- An entry was there before a pass, or is what the pass records of its header. -/
theorem get?_pass_cases (hp : p.Regular) (hsub : hs ⊆ p.batch.parsed) {entry : CacheEntry}
    (hentry : (p.pass force hs s).cache.get? header = some entry) :
    s.cache.get? header = some entry ∨
      ∃ h ∈ p.batch.parsed, ∃ e, h.path = header ∧ h.entity = some e ∧ entry = p.entry h e := by
  revert entry
  refine pass_induction (motive := fun s' => ∀ {entry}, s'.cache.get? header = some entry →
      s.cache.get? header = some entry ∨ ∃ h ∈ p.batch.parsed, ∃ e, h.path = header ∧
        h.entity = some e ∧ entry = p.entry h e)
    hsub (fun s' h hmem hbefore entry hentry => ?_) Or.inl
  cases he : h.entity with
  | none =>
      rw [step_of_none force he] at hentry
      exact hbefore hentry
  | some e =>
      cases p.step_result force s' he (hp.slash h hmem e he) with
      | skipped _ _ _ hcache => exact hbefore (hcache ▸ hentry)
      | failed _ _ hcache => exact hbefore (hcache ▸ hentry)
      | rendered _ _ hcache =>
          rw [hcache, BuildCache.get?_record] at hentry
          split at hentry
          · next hpath => exact Or.inr ⟨h, hmem, e, hpath, he, (Option.some.inj hentry).symm⟩
          · exact hbefore hentry

/-- The header at a path was found, but could not be read or parsed. -/
def Unparsed (p : Plan) (header : Path) : Prop :=
  header ∈ p.headers ∧ ∀ h ∈ p.batch.parsed, h.path ≠ header

theorem Unparsed.not_reflects (h : p.Unparsed header) : ¬ p.Reflects header := by
  rintro ⟨g, hmem, -, hpath, -⟩
  exact h.2 g hmem hpath

/-- The headers that keep their entries were found, and were not parsed to nothing. -/
theorem mem_liveHeaders :
    header ∈ liveHeaders p.headers p.batch.parsed ↔
      header ∈ p.headers ∧ ∀ h ∈ p.batch.parsed, h.path = header → h.entity ≠ none := by
  refine List.mem_filter.trans (and_congr_right fun _ => ?_)
  rw [Bool.not_eq_true', List.contains_eq_mem, decide_eq_false_iff_not]
  constructor
  · intro hlive h hmem hpath hnone
    exact hlive (List.mem_map.mpr ⟨h, List.mem_filter.mpr ⟨hmem, by rw [hnone]; rfl⟩, hpath⟩)
  · intro hparsed hdead
    obtain ⟨h, hfilter, hpath⟩ := List.mem_map.mp hdead
    obtain ⟨hmem, hnone⟩ := List.mem_filter.mp hfilter
    exact hparsed h hmem hpath (Option.isNone_iff_eq_none.mp hnone)

theorem Unparsed.mem_liveHeaders (h : p.Unparsed header) :
    header ∈ liveHeaders p.headers p.batch.parsed :=
  Plan.mem_liveHeaders.mpr ⟨h.1, fun g hmem hpath => absurd hpath (h.2 g hmem)⟩

end Plan

namespace Project

variable {pr : Project} {tree : FileTree} {force : Bool} {cache : BuildCache}

/-! ## Caches that builds have left -/

/-- The cache that a build leaves. -/
def cacheAfter (pr : Project) (tree : FileTree) (force : Bool) : BuildCache :=
  ((pr.plan tree).finished ((pr.plan tree).rendered
    (tree.makeDirs pr.layout.generatedOut).1 force)).cache

theorem get?_cacheAfter {header : Path} {entry : CacheEntry} :
    (pr.cacheAfter tree force).get? header = some entry ↔
      header ∈ liveHeaders (pr.plan tree).headers (pr.plan tree).batch.parsed ∧
        ((pr.plan tree).rendered (tree.makeDirs pr.layout.generatedOut).1 force).cache.get?
          header = some entry :=
  BuildCache.get?_prune_eq_some_iff

/-- The caches that builds of the project leave one after the other, from none at all, each build
with the tree that it found and the cache that it left, the last one first. A cache may be removed
between builds, or fail to be saved. -/
inductive Kept (pr : Project) : (runs : List (FileTree × BuildCache)) → BuildCache → Prop
  | absent {runs : List (FileTree × BuildCache)} : Kept pr runs .empty
  | build {runs : List (FileTree × BuildCache)} {tree : FileTree} (force : Bool)
      (hfound : Kept pr runs (pr.cacheIn tree)) :
      Kept pr ((tree, pr.cacheAfter tree force) :: runs) (pr.cacheAfter tree force)

/-- A header that has a time which was recorded for it is as the build found it that recorded the
time. -/
def Stamped (runs : List (FileTree × BuildCache)) (tree : FileTree) : Prop :=
  ∀ run ∈ runs, ∀ header entry, run.2.get? header = some entry →
    modified? run.1 header = some entry.modified → modified? tree header = some entry.modified →
      run.1.readFile header = tree.readFile header

namespace Kept

variable {runs : List (FileTree × BuildCache)} {h : ParsedHeader} {e : Entity} {entry : CacheEntry}

theorem saved (hkept : pr.Kept runs cache) : pr.Saved cache := by
  induction hkept with
  | absent => exact .absent
  | build force _ ih => exact .build force ih

/-- Every entry was recorded by one of the builds. -/
theorem exists_record (hkept : pr.Kept runs cache) {header : Path}
    (hentry : cache.get? header = some entry) :
    ∃ run ∈ runs, run.2.get? header = some entry ∧ ∃ h ∈ (pr.plan run.1).batch.parsed, ∃ e,
      h.path = header ∧ h.entity = some e ∧ entry = (pr.plan run.1).entry h e := by
  induction hkept with
  | absent => cases hentry
  | @build runs tree force _ ih =>
      rcases Plan.get?_pass_cases (regular pr tree) (List.Subset.refl _)
        (BuildCache.get?_of_prune hentry) with hbefore | hrecorded
      · obtain ⟨run, hrun, hrecord⟩ := ih hbefore
        exact ⟨run, List.mem_cons_of_mem _ hrun, hrecord⟩
      · exact ⟨_, List.mem_cons_self, hentry, hrecorded⟩

/-- An entry with the time of its header is what rendering the header would record. -/
theorem entry_eq (hkept : pr.Kept runs cache) (hstamped : Stamped runs tree)
    (hmem : h ∈ (pr.plan tree).batch.parsed) (he : h.entity = some e)
    (hentry : cache.get? h.path = some entry) (htime : entry.modified = h.modified) :
    entry = (pr.plan tree).entry h e := by
  obtain ⟨run, hrun, hget, g, hg, e', hpath, he', hrecord⟩ := hkept.exists_record hentry
  obtain ⟨contents, hread, -⟩ := readFile_of_mem_parsed hmem
  obtain ⟨contents', hread', -⟩ := readFile_of_mem_parsed hg
  have hthen : modified? run.1 h.path = some entry.modified := by
    rw [hpath] at hread'
    rw [hrecord]
    exact modified?_of_readFile hread'
  have hnow : modified? tree h.path = some entry.modified := by
    rw [htime]
    exact modified?_of_readFile hread
  have hsame := hstamped run hrun h.path entry hget hthen hnow
  rw [hrecord]
  exact Project.entry_eq hg hmem hpath (hpath ▸ hsame) he' he

/-- So it is all through a pass. -/
theorem entry_pass_eq (hkept : pr.Kept runs (pr.cacheIn tree)) (hstamped : Stamped runs tree)
    {hs : List ParsedHeader} (hsub : hs ⊆ (pr.plan tree).batch.parsed)
    (hmem : h ∈ (pr.plan tree).batch.parsed) (he : h.entity = some e)
    (hentry : ((pr.plan tree).pass force hs ((pr.plan tree).start
      (tree.makeDirs pr.layout.generatedOut).1)).cache.get? h.path = some entry)
    (htime : entry.modified = h.modified) : entry = (pr.plan tree).entry h e := by
  rcases Plan.get?_pass_cases (regular pr tree) hsub hentry with
    hbefore | ⟨g, hg, e', hpath, he', hrecord⟩
  · exact hkept.entry_eq hstamped hmem he hbefore htime
  · obtain rfl := eq_of_path_eq hg hmem hpath
    cases he.symm.trans he'
    exact hrecord

end Kept

/-! ## The cache after a build -/

/-- A cache that could be saved is in its file. -/
theorem holds_saved (hsaved : ((pr.plan tree).saved ((pr.plan tree).rendered
      (tree.makeDirs pr.layout.generatedOut).1 force)).2 = .ok ()) :
    ((pr.plan tree).saved ((pr.plan tree).rendered
      (tree.makeDirs pr.layout.generatedOut).1 force)).1.Holds pr.layout.cacheFile
        (pr.cacheAfter tree force).write := by
  rcases BuildCache.save_cases (pr.cacheAfter tree force) ((pr.plan tree).swept
    ((pr.plan tree).rendered (tree.makeDirs pr.layout.generatedOut).1 force))
    pr.layout.cacheFile with ⟨hfailed, -⟩ | ⟨-, hholds⟩
  · exact absurd hsaved hfailed
  · exact hholds

/-- **What a build leaves in its cache.** Whatever cache a build finds: when it gets to its end and
its cache can be saved, the saved cache can be loaded again, also after the project files were
changed, if the cache file is none of them. Its entries are of headers that were found and not
parsed to nothing; every header with an entity has an entry with its time of change, unless one of
its artifacts could not be written; and a header that could not be read or parsed has the entry that
it had before. -/
theorem cache_after_build (hsettings : readSettings tree pr.settingsFile = .ok pr.settings)
    (hdir : settingsDir tree pr.settingsFile = pr.dir) {summary : Summary}
    (hresult : (generate tree pr.settingsFile force).result = .ok summary)
    (hsaved : ((pr.plan tree).saved ((pr.plan tree).rendered
      (tree.makeDirs pr.layout.generatedOut).1 force)).2 = .ok ()) :
    (BuildCache.load ((pr.plan tree).saved ((pr.plan tree).rendered
      (tree.makeDirs pr.layout.generatedOut).1 force)).1 pr.layout.cacheFile).1 =
        pr.cacheAfter tree force ∧
    ((∀ f, pr.layout.project = some f ∨ pr.layout.filters = some f →
        Apart pr.layout.cacheFile f) →
      (BuildCache.load (generate tree pr.settingsFile force).tree pr.layout.cacheFile).1 =
        pr.cacheAfter tree force) ∧
    (∀ header entry, (pr.cacheAfter tree force).get? header = some entry →
      header ∈ (pr.plan tree).headers ∧
        ∀ h ∈ (pr.plan tree).batch.parsed, h.path = header → h.entity ≠ none) ∧
    (∀ h ∈ (pr.plan tree).batch.parsed, ∀ e, h.entity = some e →
      (∀ a, ¬ (pr.plan tree).Unwritten (tree.makeDirs pr.layout.generatedOut).1 force h a) →
        ∃ entry, (pr.cacheAfter tree force).get? h.path = some entry ∧
          entry.modified = h.modified) ∧
    ∀ header, (pr.plan tree).Unparsed header →
      (pr.cacheAfter tree force).get? header = (pr.cacheIn tree).get? header := by
  have hp := regular pr tree
  have hremembers := BuildCache.remembers_of_holds (holds_saved hsaved)
  refine ⟨hremembers.load_eq, fun hproject => ?_, fun header entry hentry => ?_,
    fun h hmem e he hwritten => ?_, fun header hunparsed => ?_⟩
  · rw [(generate_of_ok hsettings hdir hresult).2.1, Plan.execute_fst, Plan.finished_tree]
    exact (hremembers.of_touches (touches_updateProject _ _ _) hproject).load_eq
  · exact Plan.mem_liveHeaders.mp (get?_cacheAfter.mp hentry).1
  · obtain ⟨entry, hentry, htime⟩ := Plan.noted_rendered hp hmem he hwritten
    have hreflects : (pr.plan tree).Reflects h.path := ⟨h, hmem, e, rfl, he⟩
    have hlive := mem_liveHeaders_of_reflects hreflects
    exact ⟨entry, get?_cacheAfter.mpr ⟨hlive, hentry⟩, htime⟩
  · have hsame : ((pr.plan tree).rendered (tree.makeDirs pr.layout.generatedOut).1
        force).cache.get? header = (pr.cacheIn tree).get? header :=
      Plan.get?_pass hp (List.Subset.refl _) hunparsed.not_reflects
    rw [← hsame]
    apply Option.ext
    intro entry
    exact get?_cacheAfter.trans (and_iff_right hunparsed.mem_liveHeaders)

/-! ## Looking into a tree -/

variable {tree' : FileTree} {headers : List Path}

theorem Found.headers_eq (hfound : pr.Found tree headers) : (pr.plan tree).headers = headers := by
  rw [hfound.plan_eq]
  rfl

/-- A cache that the first build has left. -/
theorem Found.kept (hfound : pr.Found tree headers) (hempty : pr.cacheIn tree = .empty)
    (hcache : pr.cacheIn tree' = ((planOf tree pr.layout headers).finished
      ((planOf tree pr.layout headers).rendered (tree.makeDirs pr.layout.generatedOut).1
        force)).cache) :
    pr.Kept [(tree, pr.cacheAfter tree force)] (pr.cacheIn tree') := by
  rw [hcache, ← hfound.plan_eq]
  apply Kept.build
  rw [hempty]
  exact .absent

/-- All headers that the first build found have another time now, or are gone. -/
theorem Found.stamped (hfound : pr.Found tree headers)
    (hother : ∀ header ∈ headers, modified? tree header ≠ modified? tree' header) :
    Stamped [(tree, pr.cacheAfter tree force)] tree' := by
  intro run hrun header entry hentry hthen hnow
  obtain rfl := List.mem_singleton.mp hrun
  have hmem := (Plan.mem_liveHeaders.mp (get?_cacheAfter.mp hentry).1).1
  rw [hfound.headers_eq] at hmem
  exact absurd (hthen.trans hnow.symm) (hother header hmem)

end Project

namespace Copying

open Family (header project seconds settingsText)

/-- The tree before the first build. Two headers have a class of the same name. -/
def sources : FileTree :=
  let empty := FileTree.ofWorkingDir "/w"
  let configured := (empty.addFile "/w/reflect.toml" (Utf8.encode settingsText) (seconds 1)).1
  let copy := (configured.addFile "/w/Source/Copy.h" (header "UFoo" "UObject") (seconds 1)).1
  (copy.addFile "/w/Source/Foo.h" (header "UFoo" "UObject") (seconds 1)).1

/-- The headers in the order of their paths. -/
def headers : List Path :=
  ["/w/Source/Copy.h", "/w/Source/Foo.h"]

/-- The tree after the first build. -/
def built : FileTree :=
  (execute (sources.makeDirs project.layout.generatedOut).1
    (planOf sources project.layout headers) false).1

/-- A header with a macro that is not closed. -/
def unclosed : Bytes :=
  Utf8.encode ("UCLASS()\nclass UFoo : public UObject\n".toList ++
    "\x7b\n    GENERATED_REFLECTION_BODY()\n    UPROPERTY(\n\x7d;\n".toList)

/-- The tree after one of the headers was removed and the other was broken. -/
def broken : FileTree :=
  let removed := (built.settle (built.removeFile "/w/Source/Copy.h")).1
  (removed.addFile "/w/Source/Foo.h" unclosed (seconds 2)).1

/-- A file that comes of both headers. -/
def file : Path :=
  "/w/Generated/UFoo.generated.h"

theorem found_sources : project.Found sources headers := by
  decide +kernel

/-- The header that is left. -/
def remaining : List Path :=
  ["/w/Source/Foo.h"]

/-- The settings and the header that is left are found, no header can be parsed, and the cache can
be saved. -/
abbrev Looked : Prop :=
  broken.readFile project.settingsFile = sources.readFile project.settingsFile ∧
    settingsDir broken project.settingsFile = project.dir ∧
    (broken.makeDirs project.layout.generatedOut).2 = .ok () ∧
    Discovery.collect broken ⟨project.layout.generatedOut, project.settings.excludeDirs⟩
      (broken.nodes.size + 1) project.layout.sourceRoot = remaining ∧
    (planOf broken project.layout remaining).batch.parsed.isEmpty = true ∧
    ((planOf broken project.layout remaining).saved
      ((planOf broken project.layout remaining).rendered
        (broken.makeDirs project.layout.generatedOut).1 false)).2 = .ok ()

/-- The cache is that of the first build, with the file recorded for both headers. -/
abbrev Recorded : Prop :=
  project.cacheIn sources = .empty ∧
    project.cacheIn broken = ((planOf sources project.layout headers).finished
      ((planOf sources project.layout headers).rendered
        (sources.makeDirs project.layout.generatedOut).1 false)).cache ∧
    ∀ header ∈ headers, ((project.cacheIn broken).get? header).any
      (·.artifacts.contains file) = true

/-- No header has the time that it had, and the file stands before the build and not after it. -/
abbrev Lost : Prop :=
  (∀ header ∈ headers, modified? sources header ≠ modified? broken header) ∧
    broken.Stands file ∧
    ¬ (execute (broken.makeDirs project.layout.generatedOut).1
      (planOf broken project.layout remaining) false).1.Stands file

-- one evaluation of the tree serves all that is read off it
theorem evaluated_broken : Looked ∧ Recorded ∧ Lost := by
  decide +kernel

theorem found_broken : project.Found broken remaining where
  settings :=
    (Project.readSettings_of_readFile evaluated_broken.1.1).trans found_sources.settings
  dir := evaluated_broken.1.2.1
  made := evaluated_broken.1.2.2.1
  collected := evaluated_broken.1.2.2.2.1
  sorted := List.pairwise_singleton _ _

theorem parsed_broken : (project.plan broken).batch.parsed = [] := by
  rw [found_broken.plan_eq]
  exact List.isEmpty_iff.mp evaluated_broken.1.2.2.2.2.1

theorem unparsed_broken : (project.plan broken).Unparsed "/w/Source/Foo.h" := by
  refine ⟨?_, fun h hmem => ?_⟩
  · rw [found_broken.headers_eq]
    exact List.mem_singleton.mpr rfl
  · rw [parsed_broken] at hmem
    cases hmem

theorem exists_entry_broken (header : Path) (hmem : header ∈ headers) :
    ∃ entry, (project.cacheIn broken).get? header = some entry ∧ file ∈ entry.artifacts := by
  have hany := evaluated_broken.2.1.2.2 header hmem
  cases hentry : (project.cacheIn broken).get? header with
  | none =>
      rw [hentry] at hany
      cases hany
  | some entry =>
      rw [hentry] at hany
      exact ⟨entry, rfl, by simpa using hany⟩

/-- The header that was broken keeps its entry, and that of the header that was removed is
dropped. -/
theorem cache_after_build_broken :
    readSettings broken project.settingsFile = .ok project.settings ∧
      settingsDir broken project.settingsFile = project.dir ∧
      (∃ summary, (generate broken project.settingsFile false).result = .ok summary) ∧
      ((project.plan broken).saved ((project.plan broken).rendered
        (broken.makeDirs project.layout.generatedOut).1 false)).2 = .ok () ∧
      (∃ entry, (project.cacheAfter broken false).get? "/w/Source/Foo.h" = some entry) ∧
      (project.cacheAfter broken false).get? "/w/Source/Copy.h" = none := by
  have hresult := (found_broken.generate_eq false).2
  have hsaved : ((project.plan broken).saved ((project.plan broken).rendered
      (broken.makeDirs project.layout.generatedOut).1 false)).2 = .ok () := by
    rw [found_broken.plan_eq]
    exact evaluated_broken.1.2.2.2.2.2
  obtain ⟨-, -, hkeys, -, hkept⟩ := Project.cache_after_build found_broken.settings
    found_broken.dir hresult hsaved
  refine ⟨found_broken.settings, found_broken.dir, ⟨_, hresult⟩, hsaved, ?_, ?_⟩
  · obtain ⟨entry, hentry, -⟩ := exists_entry_broken "/w/Source/Foo.h" (by decide)
    exact ⟨entry, (hkept _ unparsed_broken).trans hentry⟩
  · rw [Option.eq_none_iff_forall_ne_some]
    intro entry hentry
    have hfound := (hkeys _ entry hentry).1
    rw [found_broken.headers_eq] at hfound
    revert hfound
    decide

end Copying

end Build

end Registrar
