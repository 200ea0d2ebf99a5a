import Registrar.Proofs.BuildFrame
import Registrar.Proofs.EntityNames

/-!
# One pass over the headers

A build goes through its parsed headers and leaves a header alone, renders it, or fails to
(`Build.Plan.StepResult`). The entries of the cache are kept current: an entry that has a header's
time of change is what rendering the header would record, and the artifacts of the header are held
(`Build.Plan.Current`). So leaving such a header alone comes to the same as rendering it, and a pass
that renders everything ends with the same tree and the same cache (`Build.Plan.agree_pass`).
-/

namespace Registrar.Build

open FileTree (Apart Touches)

namespace Plan

variable {p : Plan} {s s' : Progress} {h h' : ParsedHeader} {e e' : Entity}

/-! ## What is rendered -/

/-- The artifacts of a header with an entity. -/
def rendering (p : Plan) (h : ParsedHeader) (e : Entity) : List Artifact :=
  Artifact.render e (roleIn p.graph e.name) (h.path.fileName?.getD []) p.layout.generatedOut

/-- The artifacts of the header at a path; nothing where there is none with an entity. -/
def rendered? (p : Plan) (header : Path) : Option (List Artifact) :=
  (p.batch.parsed.find? fun h => h.path = header).bind fun h => h.entity.map (p.rendering h)

/-- What is recorded of a header that was rendered. -/
def entry (p : Plan) (h : ParsedHeader) (e : Entity) : CacheEntry :=
  ⟨h.hash, h.modified, Artifact.paths e p.layout.generatedOut⟩

/-- The artifacts of a header are in place. -/
def Held (p : Plan) (tree : FileTree) (h : ParsedHeader) (e : Entity) : Prop :=
  ∀ a ∈ p.rendering h e, tree.Holds a.path a.contents

/-- The parsed headers are told apart by their paths and by the names of their entities, which have
no slash. -/
structure Orderly (p : Plan) : Prop where
  unique : ∀ h ∈ p.batch.parsed, ∀ h' ∈ p.batch.parsed, h.path = h'.path → h = h'
  slash : ∀ h ∈ p.batch.parsed, ∀ e, h.entity = some e → '/' ∉ e.name
  named : ∀ h ∈ p.batch.parsed, ∀ h' ∈ p.batch.parsed, ∀ e e', h.entity = some e →
    h'.entity = some e' → e.name = e'.name → h = h'

theorem path_rendering (p : Plan) (h : ParsedHeader) (e : Entity) :
    (p.rendering h e).map (·.path) = Artifact.paths e p.layout.generatedOut :=
  (Artifact.paths_eq e _ _ _).symm

theorem path_mem_paths {a : Artifact} (ha : a ∈ p.rendering h e) :
    a.path ∈ Artifact.paths e p.layout.generatedOut := by
  rw [← path_rendering p h e]
  exact List.mem_map_of_mem ha

theorem exists_of_rendered? {header : Path} {artifacts : List Artifact}
    (hrendered : p.rendered? header = some artifacts) :
    ∃ h ∈ p.batch.parsed, ∃ e, h.path = header ∧ h.entity = some e ∧
      artifacts = p.rendering h e := by
  obtain ⟨h, hfind, hmap⟩ := Option.bind_eq_some_iff.mp hrendered
  obtain ⟨e, he, hartifacts⟩ := Option.map_eq_some_iff.mp hmap
  have hpath := List.find?_some hfind
  exact ⟨h, List.mem_of_find?_eq_some hfind, e, of_decide_eq_true hpath, he, hartifacts.symm⟩

theorem rendered?_eq (hp : p.Orderly) (hmem : h ∈ p.batch.parsed) (he : h.entity = some e) :
    p.rendered? h.path = some (p.rendering h e) := by
  have hsome : (p.batch.parsed.find? fun h' => h'.path = h.path).isSome := by
    rw [List.find?_isSome]
    exact ⟨h, hmem, decide_eq_true rfl⟩
  obtain ⟨found, hfound⟩ := Option.isSome_iff_exists.mp hsome
  have hpath := List.find?_some hfound
  have heq := hp.unique found (List.mem_of_find?_eq_some hfound) h hmem (of_decide_eq_true hpath)
  unfold rendered?
  rw [hfound, heq, Option.bind_some, he]
  rfl

/-! ## One header -/

/-- What a step does to a header with an entity: the header is left alone, rendered and recorded, or
some of its artifacts fail. -/
inductive StepResult (p : Plan) (force : Bool) (s : Progress) (h : ParsedHeader) (e : Entity)
    (after : Progress) : Prop
  | skipped (hforce : force = false)
      (hunchanged : s.cache.isUnchanged s.tree h.path h.modified = true)
      (htree : after.tree = s.tree) (hcache : after.cache = s.cache)
      (hfailures : after.summary.failures = s.summary.failures)
  | rendered (htouches : Touches (· ∈ Artifact.paths e p.layout.generatedOut) s.tree after.tree)
      (hheld : p.Held after.tree h e) (hcache : after.cache = s.cache.record h.path (p.entry h e))
      (hfailures : after.summary.failures = 0 → s.summary.failures = 0)
  | failed (htouches : Touches (· ∈ Artifact.paths e p.layout.generatedOut) s.tree after.tree)
      (hheld : ¬ p.Held s.tree h e) (hcache : after.cache = s.cache)
      (hfailures : after.summary.failures ≠ 0)

/-- One step of a pass. -/
abbrev step (p : Plan) (force : Bool) : Progress → ParsedHeader → Progress :=
  Progress.step p.graph p.layout.generatedOut force

/-- The artifacts of a header on their way, from the first to the last. -/
def emission (p : Plan) (s : Progress) (h : ParsedHeader) (e : Entity) : Emission :=
  (p.rendering h e).foldl Emission.add ⟨s.tree, s.log, s.summary, true⟩

/-- A header is recorded when all of its artifacts are in place. -/
theorem render_eq (p : Plan) (s : Progress) (h : ParsedHeader) (e : Entity) :
    s.render p.graph p.layout.generatedOut h e =
      { s with
        tree := (p.emission s h e).tree
        log := (p.emission s h e).log
        summary := (p.emission s h e).summary
        cache :=
          if (p.emission s h e).complete then s.cache.record h.path (p.entry h e)
          else s.cache } :=
  rfl

theorem stepResult_render (p : Plan) (force : Bool) (s : Progress) (hslash : '/' ∉ e.name) :
    p.StepResult force s h e (s.render p.graph p.layout.generatedOut h e) := by
  have hpaths := path_rendering p h e
  have htouches : Touches (· ∈ Artifact.paths e p.layout.generatedOut) s.tree
      (p.emission s h e).tree := by
    rw [← hpaths]
    exact Emission.touches_foldl (p.rendering h e) ⟨s.tree, s.log, s.summary, true⟩
  rw [render_eq]
  cases hcomplete : (p.emission s h e).complete with
  | true =>
      have hapart : ((p.rendering h e).map (·.path)).Pairwise Apart := by
        rw [hpaths]
        exact Artifact.pairwise_apart e hslash _
      refine .rendered htouches (Emission.holds_of_complete hapart hcomplete).2 rfl ?_
      exact fun hzero => (Emission.complete_of_failures hzero).1
  | false =>
      refine .failed htouches ?_ rfl ?_
      · intro hheld
        have hheld' : (p.emission s h e).complete = true :=
          (Emission.foldl_of_holds (s := ⟨s.tree, s.log, s.summary, true⟩) hheld).2
        rw [hcomplete] at hheld'
        cases hheld'
      · intro hzero
        have hzero' : (p.emission s h e).complete = true := (Emission.complete_of_failures hzero).2
        rw [hcomplete] at hzero'
        cases hzero'

/-- A header with an entity is counted, and its files are listed. -/
def counted (p : Plan) (s : Progress) (e : Entity) : Progress :=
  { s with
    summary := { s.summary with entities := s.summary.entities + 1 }
    files := s.files ++ Artifact.paths e p.layout.generatedOut }

theorem step_of_unchanged (he : h.entity = some e)
    (hunchanged : s.cache.isUnchanged s.tree h.path h.modified = true) :
    p.step false s h =
      { p.counted s e with
        summary := { (p.counted s e).summary with
          skipped := s.summary.skipped + (Artifact.paths e p.layout.generatedOut).length } } := by
  unfold step Progress.step
  rw [he]
  dsimp only
  rw [hunchanged]
  rfl

theorem step_of_changed {force : Bool} (he : h.entity = some e)
    (hchanged : (!force && s.cache.isUnchanged s.tree h.path h.modified) = false) :
    p.step force s h = (p.counted s e).render p.graph p.layout.generatedOut h e := by
  unfold step Progress.step
  rw [he]
  dsimp only
  rw [hchanged]
  rfl

theorem step_result (p : Plan) (force : Bool) (s : Progress) (he : h.entity = some e)
    (hslash : '/' ∉ e.name) : p.StepResult force s h e (p.step force s h) := by
  cases hskip : !force && s.cache.isUnchanged s.tree h.path h.modified with
  | true =>
      obtain ⟨hforce, hunchanged⟩ := Bool.and_eq_true_iff.mp hskip
      have hforce : force = false := by simpa using hforce
      subst hforce
      rw [step_of_unchanged he hunchanged]
      exact .skipped rfl hunchanged rfl rfl rfl
  | false =>
      rw [step_of_changed he hskip]
      cases stepResult_render p force (p.counted s e) hslash with
      | skipped hforce hunchanged htree hcache hfailures =>
          exact .skipped hforce hunchanged htree hcache hfailures
      | rendered htouches hheld hcache hfailures => exact .rendered htouches hheld hcache hfailures
      | failed htouches hheld hcache hfailures => exact .failed htouches hheld hcache hfailures

theorem step_of_none (force : Bool) (hnone : h.entity = none) : p.step force s h = s := by
  unfold step Progress.step
  rw [hnone]

/-! ## Current entries -/

/-- Every entry names artifacts only, and one that has the time of change of its header is what
rendering the header would record, with the artifacts in place. -/
structure Current (p : Plan) (tree : FileTree) (cache : BuildCache) : Prop where
  isPath : ∀ header entry, cache.get? header = some entry → ∀ q ∈ entry.artifacts,
    Artifact.IsPath p.layout.generatedOut q
  held : ∀ h ∈ p.batch.parsed, ∀ e, h.entity = some e → ∀ entry,
    cache.get? h.path = some entry → entry.modified = h.modified →
      entry = p.entry h e ∧ p.Held tree h e

/-- Entries stay current when some are dropped and all artifacts stay in place. -/
theorem Current.weaken {tree tree' : FileTree} {cache cache' : BuildCache}
    (hcurrent : p.Current tree cache)
    (hcache : ∀ header entry, cache'.get? header = some entry → cache.get? header = some entry)
    (hheld : ∀ h ∈ p.batch.parsed, ∀ e, h.entity = some e → p.Held tree h e → p.Held tree' h e) :
    p.Current tree' cache' where
  isPath header entry hentry := hcurrent.isPath header entry (hcache header entry hentry)
  held h hmem e he entry hentry htime := by
    obtain ⟨heq, hbefore⟩ := hcurrent.held h hmem e he entry (hcache h.path entry hentry) htime
    exact ⟨heq, hheld h hmem e he hbefore⟩

theorem isPath_of_mem_paths (hp : p.Orderly) (hmem : h ∈ p.batch.parsed) (he : h.entity = some e)
    {q : Path} (hq : q ∈ Artifact.paths e p.layout.generatedOut) :
    Artifact.IsPath p.layout.generatedOut q :=
  Artifact.isPath_of_mem_paths (hp.slash h hmem e he) hq

/-- A header's artifacts stay in place while those of another are written. -/
theorem Held.of_touches (hp : p.Orderly) {before after : FileTree} (hmem : h ∈ p.batch.parsed)
    (he : h.entity = some e) (hmem' : h' ∈ p.batch.parsed) (he' : h'.entity = some e')
    (hne : h ≠ h')
    (htouches : Touches (· ∈ Artifact.paths e' p.layout.generatedOut) before after)
    (hheld : p.Held before h e) : p.Held after h e := by
  intro a ha
  apply (hheld a ha).of_touches htouches
  intro q hq
  have hname : e.name ≠ e'.name := fun heq => hne (hp.named h hmem h' hmem' e e' he he' heq)
  exact Artifact.apart_paths (hp.slash h hmem e he) (hp.slash h' hmem' e' he') hname
    (path_mem_paths ha) hq

/-- Artifacts in place stay so, whichever header is next. -/
theorem held_step (hp : p.Orderly) (force : Bool) (hmem : h ∈ p.batch.parsed)
    (he : h.entity = some e) (hmem' : h' ∈ p.batch.parsed) (hheld : p.Held s.tree h e) :
    p.Held (p.step force s h').tree h e := by
  cases he' : h'.entity with
  | none =>
      rw [step_of_none force he']
      exact hheld
  | some e' =>
      by_cases hne : h = h'
      · subst hne
        cases he.symm.trans he'
        cases p.step_result force s he (hp.slash h hmem e he) with
        | skipped _ _ htree =>
            rw [htree]
            exact hheld
        | rendered _ hafter => exact hafter
        | failed _ hbefore => exact absurd hheld hbefore
      · cases p.step_result force s he' (hp.slash h' hmem' e' he') with
        | skipped _ _ htree =>
            rw [htree]
            exact hheld
        | rendered htouches => exact hheld.of_touches hp hmem he hmem' he' hne htouches
        | failed htouches => exact hheld.of_touches hp hmem he hmem' he' hne htouches

/-- A step keeps the entries current. -/
theorem current_step (hp : p.Orderly) (force : Bool) (hcurrent : p.Current s.tree s.cache)
    (hmem : h ∈ p.batch.parsed) :
    p.Current (p.step force s h).tree (p.step force s h).cache := by
  have hkept : p.Current (p.step force s h).tree s.cache :=
    hcurrent.weaken (fun _ _ hentry => hentry) fun g hg eg heg hheld =>
      held_step hp force hg heg hmem hheld
  cases he : h.entity with
  | none =>
      rw [step_of_none force he]
      exact hcurrent
  | some e =>
      cases p.step_result force s he (hp.slash h hmem e he) with
      | skipped _ _ _ hcache =>
          rw [hcache]
          exact hkept
      | failed _ _ hcache =>
          rw [hcache]
          exact hkept
      | rendered _ hafter hcache =>
          have hget : ∀ header entry,
              (p.step force s h).cache.get? header = some entry →
              (h.path = header ∧ entry = p.entry h e) ∨ s.cache.get? header = some entry := by
            intro header entry hentry
            rw [hcache, BuildCache.get?, BuildCache.record, Dict.get?_insert] at hentry
            split at hentry
            · next hpath => exact Or.inl ⟨hpath, (Option.some.inj hentry).symm⟩
            · exact Or.inr hentry
          refine ⟨fun header entry hentry => ?_, fun g hg eg heg entry hentry htime => ?_⟩
          · rcases hget header entry hentry with ⟨-, rfl⟩ | hbefore
            · exact fun q hq => isPath_of_mem_paths hp hmem he hq
            · exact hkept.isPath header entry hbefore
          · rcases hget g.path entry hentry with ⟨hpath, rfl⟩ | hbefore
            · -- the header of this step, which is recorded as it was rendered
              have hsame := hp.unique h hmem g hg hpath
              subst hsame
              cases he.symm.trans heg
              exact ⟨rfl, hafter⟩
            · exact hkept.held g hg eg heg entry hbefore htime

/-! ## Forced and unforced steps -/

/-- Two passes have come to the same tree, cache and list of files. -/
structure Agree (s s' : Progress) : Prop where
  tree : s.tree = s'.tree
  cache : s.cache = s'.cache
  files : s.files = s'.files

theorem record_of_get? {cache : BuildCache} {header : Path} {entry : CacheEntry}
    (hentry : cache.get? header = some entry) : cache.record header entry = cache := by
  have hentries : cache.entries.insert header entry = cache.entries := by
    apply Dict.ext_get?
    intro key
    rw [Dict.get?_insert]
    split
    · next heq =>
      rw [← heq]
      exact hentry.symm
    · rfl
  unfold BuildCache.record
  rw [hentries]

theorem emission_agree (p : Plan) (h : ParsedHeader) (e : Entity) (htree : s.tree = s'.tree) :
    (p.emission s h e).tree = (p.emission s' h e).tree ∧
      (p.emission s h e).complete = (p.emission s' h e).complete :=
  Emission.foldl_agree htree rfl

/-- A header that is left alone would be rendered to what is there. -/
theorem agree_step (hcurrent : p.Current s.tree s.cache) (hmem : h ∈ p.batch.parsed) (hagree : Agree s s') :
    Agree (p.step false s h) (p.step true s' h) := by
  cases he : h.entity with
  | none =>
      rw [step_of_none false he, step_of_none true he]
      exact hagree
  | some e =>
      have hfiles : (p.counted s e).files = (p.counted s' e).files := by
        show s.files ++ _ = s'.files ++ _
        rw [hagree.files]
      rw [step_of_changed (p := p) (s := s') he rfl, render_eq]
      cases hunchanged : s.cache.isUnchanged s.tree h.path h.modified with
      | false =>
          rw [step_of_changed (p := p) (s := s) he (by rw [hunchanged]; rfl), render_eq]
          have htree : (p.counted s e).tree = (p.counted s' e).tree := hagree.tree
          have hcache : (p.counted s e).cache = (p.counted s' e).cache := hagree.cache
          obtain ⟨hdone, hcomplete⟩ := emission_agree p h e htree
          refine ⟨hdone, ?_, hfiles⟩
          show (if _ then _ else _) = if _ then _ else _
          rw [hcomplete, hcache]
      | true =>
          rw [step_of_unchanged he hunchanged]
          obtain ⟨entry, hentry, htime⟩ := BuildCache.exists_of_isUnchanged hunchanged
          obtain ⟨heq, hheld⟩ := hcurrent.held h hmem e he entry hentry htime
          have hheld' : p.Held (p.counted s' e).tree h e := by
            show p.Held s'.tree h e
            rw [← hagree.tree]
            exact hheld
          obtain ⟨hdone, hcomplete⟩ := Emission.foldl_of_holds
            (s := ⟨(p.counted s' e).tree, (p.counted s' e).log, (p.counted s' e).summary, true⟩)
            hheld'
          refine ⟨hagree.tree.trans hdone.symm, ?_, hfiles⟩
          show s.cache = if (p.emission (p.counted s' e) h e).complete then
            s'.cache.record h.path (p.entry h e) else s'.cache
          have hcomplete : (p.emission (p.counted s' e) h e).complete = true := hcomplete
          rw [hcomplete, if_pos rfl, ← hagree.cache, ← heq, record_of_get? hentry]

/-! ## The whole pass -/

/-- The files of a header are listed after those before. -/
theorem files_step {force : Bool} (he : h.entity = some e) :
    (p.step force s h).files = s.files ++ Artifact.paths e p.layout.generatedOut := by
  unfold step Progress.step
  rw [he]
  dsimp only
  split <;> rfl

theorem files_subset_step (force : Bool) : s.files ⊆ (p.step force s h).files := by
  cases he : h.entity with
  | none =>
      rw [step_of_none force he]
      exact List.Subset.refl _
  | some e =>
      rw [files_step he]
      exact List.subset_append_left _ _

/-- A step writes artifacts of its header only. -/
theorem touches_paths_step (force : Bool) (hslash : ∀ e, h.entity = some e → '/' ∉ e.name) :
    Touches (fun q => ∃ e, h.entity = some e ∧ q ∈ Artifact.paths e p.layout.generatedOut) s.tree
      (p.step force s h).tree := by
  cases he : h.entity with
  | none =>
      rw [step_of_none force he]
      exact .refl _ _
  | some e =>
      cases p.step_result force s he (hslash e he) with
      | skipped _ _ htree =>
          rw [htree]
          exact .refl _ _
      | rendered htouches => exact htouches.mono fun q hq => ⟨e, rfl, hq⟩
      | failed htouches => exact htouches.mono fun q hq => ⟨e, rfl, hq⟩

theorem touches_step (hp : p.Orderly) (force : Bool) (hmem : h ∈ p.batch.parsed) :
    Touches (Artifact.IsPath p.layout.generatedOut) s.tree (p.step force s h).tree := by
  apply (touches_paths_step force (hp.slash h hmem)).mono
  rintro q ⟨e, he, hq⟩
  exact isPath_of_mem_paths hp hmem he hq

/-- After a step without failures the artifacts of its header are in place. -/
theorem held_of_step (hp : p.Orderly) (force : Bool) (hcurrent : p.Current s.tree s.cache)
    (hmem : h ∈ p.batch.parsed) (hzero : (p.step force s h).summary.failures = 0) :
    s.summary.failures = 0 ∧ ∀ e, h.entity = some e → p.Held (p.step force s h).tree h e := by
  cases he : h.entity with
  | none =>
      rw [step_of_none force he] at hzero
      exact ⟨hzero, fun e he => by cases he⟩
  | some e =>
      cases p.step_result force s he (hp.slash h hmem e he) with
      | skipped _ hunchanged htree _ hfailures =>
          refine ⟨hfailures ▸ hzero, fun e' he' => ?_⟩
          cases he'
          obtain ⟨entry, hentry, htime⟩ := BuildCache.exists_of_isUnchanged hunchanged
          rw [htree]
          exact (hcurrent.held h hmem e he entry hentry htime).2
      | rendered _ hheld _ hfailures =>
          refine ⟨hfailures hzero, fun e' he' => ?_⟩
          cases he'
          exact hheld
      | failed _ _ _ hfailures => exact absurd hzero hfailures

section Pass

/-- A pass over some of the parsed headers. -/
def pass (p : Plan) (force : Bool) (hs : List ParsedHeader) (s : Progress) : Progress :=
  hs.foldl (p.step force) s

variable {hs : List ParsedHeader}

/-- What every step keeps is kept by a pass. -/
theorem pass_induction {motive : Progress → Prop} {force : Bool} (hsub : hs ⊆ p.batch.parsed)
    (hstep : ∀ s h, h ∈ p.batch.parsed → motive s → motive (p.step force s h)) (hs₀ : motive s) :
    motive (p.pass force hs s) := by
  induction hs generalizing s with
  | nil => exact hs₀
  | cons h rest ih =>
      obtain ⟨hmem, hrest⟩ := List.cons_subset.mp hsub
      exact ih hrest (hstep s h hmem hs₀)

theorem current_pass (hp : p.Orderly) (force : Bool) (hsub : hs ⊆ p.batch.parsed)
    (hcurrent : p.Current s.tree s.cache) :
    p.Current (p.pass force hs s).tree (p.pass force hs s).cache :=
  pass_induction (motive := fun s => p.Current s.tree s.cache) hsub
    (fun _ _ hmem hs => current_step hp force hs hmem) hcurrent

theorem held_pass (hp : p.Orderly) (force : Bool) (hsub : hs ⊆ p.batch.parsed)
    (hmem : h ∈ p.batch.parsed) (he : h.entity = some e) (hheld : p.Held s.tree h e) :
    p.Held (p.pass force hs s).tree h e :=
  pass_induction (motive := fun s => p.Held s.tree h e) hsub
    (fun _ _ hmem' hs => held_step hp force hmem he hmem' hs) hheld

theorem touches_pass (hp : p.Orderly) (force : Bool) (hsub : hs ⊆ p.batch.parsed) :
    Touches (Artifact.IsPath p.layout.generatedOut) s.tree (p.pass force hs s).tree :=
  pass_induction (motive := fun s' => Touches (Artifact.IsPath p.layout.generatedOut) s.tree s'.tree)
    hsub (fun _ _ hmem hs => hs.trans (touches_step hp force hmem)) (.refl _ _)

/-- The files of every header of a pass are listed. -/
theorem mem_files_pass (force : Bool) (hmem : h ∈ hs) (he : h.entity = some e) {q : Path}
    (hq : q ∈ Artifact.paths e p.layout.generatedOut) : q ∈ (p.pass force hs s).files := by
  have hkeep : ∀ (rest : List ParsedHeader) (s : Progress), q ∈ s.files →
      q ∈ (p.pass force rest s).files := by
    intro rest
    induction rest with
    | nil => exact fun s hs => hs
    | cons g rest ih => exact fun s hs => ih _ (files_subset_step force hs)
  induction hs generalizing s with
  | nil => cases hmem
  | cons g rest ih =>
      rcases List.mem_cons.mp hmem with rfl | hmem
      · apply hkeep rest
        rw [files_step he]
        exact List.mem_append_right _ hq
      · exact ih hmem

/-- A pass that leaves headers alone ends as one that renders everything. -/
theorem agree_pass (hp : p.Orderly) (hsub : hs ⊆ p.batch.parsed) (hcurrent : p.Current s.tree s.cache)
    (hagree : Agree s s') : Agree (p.pass false hs s) (p.pass true hs s') := by
  induction hs generalizing s s' with
  | nil => exact hagree
  | cons h rest ih =>
      obtain ⟨hmem, hrest⟩ := List.cons_subset.mp hsub
      exact ih hrest (current_step hp false hcurrent hmem) (agree_step hcurrent hmem hagree)

/-- After a pass without failures all artifacts are in place. -/
theorem held_of_pass (hp : p.Orderly) (force : Bool) (hsub : hs ⊆ p.batch.parsed)
    (hcurrent : p.Current s.tree s.cache) (hzero : (p.pass force hs s).summary.failures = 0) :
    s.summary.failures = 0 ∧
      ∀ h ∈ hs, ∀ e, h.entity = some e → p.Held (p.pass force hs s).tree h e := by
  induction hs generalizing s with
  | nil => exact ⟨hzero, fun h hh => absurd hh List.not_mem_nil⟩
  | cons h rest ih =>
      obtain ⟨hmem, hrest⟩ := List.cons_subset.mp hsub
      obtain ⟨hzero', hheld⟩ := ih hrest (current_step hp force hcurrent hmem) hzero
      obtain ⟨hzero₀, hfirst⟩ := held_of_step hp force hcurrent hmem hzero'
      refine ⟨hzero₀, fun g hg e he => ?_⟩
      rcases List.mem_cons.mp hg with rfl | hg
      · show p.Held (p.pass force rest (p.step force s g)).tree g e
        exact held_pass hp force hrest hmem he (hfirst e he)
      · exact hheld g hg e he

end Pass

end Plan

end Registrar.Build
