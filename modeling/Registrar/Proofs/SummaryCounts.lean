import Registrar.Proofs.CacheEntries
import Registrar.Proofs.HeaderOutlines

/-!
# The counts of a build add up

A build counts its headers, its entities, and what becomes of each file: written, left alone or
failed. The files of a header that is left alone are counted at once, from the paths of its
artifacts; those of a header that is rendered are counted one by one, from the artifacts.

`Summary.Adds` says how a summary moves on: by how many entities, and by how many outcomes of any
sort. One artifact adds one outcome (`Emission.adds_add`), one header the number of its paths either
way (`Plan.adds_step`), and a pass over headers the sum over their entities (`Plan.adds_pass`). The
main statement reads the balance off at the end of a build.
-/

namespace Registrar

namespace Summary

/-- The outcomes that are counted, of all three sorts. -/
def outcomes (s : Summary) : Nat :=
  s.written + s.skipped + s.failures

/-- The counts move on by some entities and some outcomes, over the same headers. -/
structure Adds (entities outcomes : Nat) (s s' : Summary) : Prop where
  headers_eq : s'.headers = s.headers
  entities_eq : s'.entities = s.entities + entities
  outcomes_eq : s'.outcomes = s.outcomes + outcomes

variable {m m' n n' : Nat} {s s' s'' : Summary}

theorem Adds.refl (s : Summary) : Adds 0 0 s s :=
  ⟨rfl, rfl, rfl⟩

theorem Adds.trans (h : Adds m n s s') (h' : Adds m' n' s' s'') :
    Adds (m + m') (n + n') s s'' where
  headers_eq := h'.headers_eq.trans h.headers_eq
  entities_eq := by rw [h'.entities_eq, h.entities_eq, Nat.add_assoc]
  outcomes_eq := by rw [h'.outcomes_eq, h.outcomes_eq, Nat.add_assoc]

end Summary

/-- Every header of a batch is parsed or fails. -/
theorem Batch.length_read (tree : FileTree) (table : MacroTable) (paths : List Path) :
    (read tree table paths).parsed.length + (read tree table paths).failures.length =
      paths.length := by
  induction paths with
  | nil => rfl
  | cons path rest ih =>
      cases hread : ParsedHeader.read tree table path with
      | error err =>
          rw [read_cons_of_error hread, List.length_cons (a := path), ← ih]
          exact (Nat.add_assoc _ _ 1).symm
      | ok h =>
          rw [read_cons_of_ok hread, List.length_cons (a := path), ← ih]
          exact Nat.add_right_comm _ 1 _

namespace Build

open Summary (Adds)

/-- Whatever comes of an artifact is one outcome. -/
theorem Emission.adds_add (s : Emission) (a : Artifact) : Adds 0 1 s.summary (s.add a).summary := by
  unfold add
  split
  · exact ⟨rfl, rfl, by simp only [Summary.outcomes]; omega⟩
  · exact ⟨rfl, rfl, by simp only [Summary.outcomes]; omega⟩
  · exact ⟨rfl, rfl, by simp only [Summary.outcomes]; omega⟩

theorem Emission.adds_foldl (artifacts : List Artifact) (s : Emission) :
    Adds 0 artifacts.length s.summary (artifacts.foldl add s).summary := by
  induction artifacts generalizing s with
  | nil => exact .refl _
  | cons a rest ih =>
      have hboth := (s.adds_add a).trans (ih (s.add a))
      rwa [Nat.zero_add, Nat.add_comm 1] at hboth

namespace Plan

variable {h : ParsedHeader} {e : Entity}

theorem adds_counted (p : Plan) (s : Progress) (e : Entity) :
    Adds 1 0 s.summary (p.counted s e).summary :=
  ⟨rfl, rfl, rfl⟩

/-- **One header** adds its entity and as many outcomes as the entity has artifacts, whether it is
left alone or rendered. -/
theorem adds_step (p : Plan) (force : Bool) (s : Progress) (he : h.entity = some e) :
    Adds 1 (Artifact.paths e p.layout.generatedOut).length s.summary
      (p.step force s h).summary := by
  rcases p.step_cases force s he with ⟨-, hstep⟩ | ⟨-, hstep⟩
  · rw [hstep]
    refine ⟨rfl, rfl, ?_⟩
    simp only [Summary.outcomes, counted]
    omega
  · have hlength : (p.rendering h e).length = (Artifact.paths e p.layout.generatedOut).length := by
      rw [← path_rendering p h e, List.length_map]
    rw [hstep]
    have hboth := (p.adds_counted s e).trans (Emission.adds_foldl (p.rendering h e)
      ⟨(p.counted s e).tree, (p.counted s e).log, (p.counted s e).summary, true⟩)
    rwa [Nat.zero_add, hlength] at hboth

/-- The number of artifacts of some headers, summed over their entities. -/
def artifactCount (p : Plan) (hs : List ParsedHeader) : Nat :=
  (hs.filterMap (·.entity)).foldr
    (fun e count => (Artifact.paths e p.layout.generatedOut).length + count) 0

/-- **A pass** adds the entities of its headers and an outcome for each of their artifacts. -/
theorem adds_pass (p : Plan) (force : Bool) (hs : List ParsedHeader) (s : Progress) :
    Adds (hs.countP (·.entity.isSome)) (p.artifactCount hs) s.summary
      (p.pass force hs s).summary := by
  induction hs generalizing s with
  | nil => exact .refl _
  | cons h rest ih =>
      have hrest := ih (p.step force s h)
      cases he : h.entity with
      | none =>
          rw [step_of_none force he] at hrest
          rw [List.countP_cons_of_neg (by simp [he]), artifactCount, List.filterMap_cons_none he]
          rw [pass, List.foldl_cons, step_of_none force he]
          exact hrest
      | some e =>
          have hboth := (p.adds_step force s he).trans hrest
          rw [List.countP_cons_of_pos (by simp [he]), artifactCount, List.filterMap_cons_some he,
            List.foldr_cons, Nat.add_comm _ 1]
          exact hboth

/-- A build carries out a plan with the counts of its pass. -/
theorem adds_execute (p : Plan) (tree : FileTree) (force : Bool) :
    Adds (p.batch.parsed.countP (·.entity.isSome)) (p.artifactCount p.batch.parsed)
      (p.start tree).summary (execute tree p force).2.2 := by
  rw [execute_summary]
  exact p.adds_pass force p.batch.parsed (p.start tree)

theorem failures_le_execute (p : Plan) (tree : FileTree) (force : Bool) :
    p.batch.failures.length ≤ (execute tree p force).2.2.failures := by
  rw [execute_summary]
  exact p.failures_le_pass force p.batch.parsed (p.start tree)

end Plan

/-- **The counts of a build add up.** For every tree, with whatever cache and settings it holds, and
whether the build is forced or not: when a build gets to its end, every header that was found was
parsed or failed, every parsed header with an entity was counted, and every artifact of these
entities was written, left alone or counted as a failure beside those of the headers. -/
theorem counts_add_up {tree : FileTree} {settingsFile : Path} {force : Bool} {summary : Summary}
    (h : (generate tree settingsFile force).result = .ok summary) :
    ∃ settings, readSettings tree settingsFile = .ok settings ∧
      let p := plan tree settings (settingsDir tree settingsFile)
      summary.headers = p.batch.parsed.length + p.batch.failures.length ∧
      summary.entities = p.batch.parsed.countP (·.entity.isSome) ∧
      p.batch.failures.length ≤ summary.failures ∧
      summary.written + summary.skipped + (summary.failures - p.batch.failures.length) =
        p.artifactCount p.batch.parsed := by
  cases hsettings : readSettings tree settingsFile with
  | error e =>
      rw [generate, hsettings] at h
      cases h
  | ok settings =>
      let pr : Project := ⟨settingsFile, settings, settingsDir tree settingsFile⟩
      have hsettings' : readSettings tree pr.settingsFile = .ok pr.settings := hsettings
      obtain ⟨-, -, rfl⟩ := Project.generate_of_ok hsettings' rfl h
      obtain ⟨hheaders, hentities, houtcomes⟩ :=
        (pr.plan tree).adds_execute (tree.makeDirs pr.layout.generatedOut).1 force
      have hfailures :=
        (pr.plan tree).failures_le_execute (tree.makeDirs pr.layout.generatedOut).1 force
      refine ⟨settings, rfl, hheaders.trans (Batch.length_read _ _ _).symm,
        hentities.trans (Nat.zero_add _), hfailures, ?_⟩
      -- before the first header, only the headers that failed are counted
      have hstart : ((pr.plan tree).start (tree.makeDirs pr.layout.generatedOut).1).summary.outcomes =
          (pr.plan tree).batch.failures.length := Nat.zero_add _
      rw [hstart] at houtcomes
      exact (Nat.add_sub_assoc hfailures _).symm.trans (Nat.sub_eq_of_eq_add' houtcomes)

namespace Counting

open Family (header project seconds settingsText)

/-- A header of each sort: one that cannot be parsed, one with a class, one with an enumeration, and
one that declares nothing. The cache knows the enumeration, and a directory stands where a file of
the class is to go. -/
def sources : FileTree :=
  let cache := BuildCache.empty.record "/w/Source/Mode.h" ⟨[], seconds 1, []⟩
  let files : List (Path × Bytes) :=
    [("/w/reflect.toml", Utf8.encode settingsText),
     ("/w/cache.json", Utf8.encode cache.write),
     ("/w/Generated/UFoo.generated.h/Keep.txt", []),
     ("/w/Source/Broken.h", Utf8.encode "UENUM("),
     ("/w/Source/Foo.h", header "UFoo" "UObject"),
     ("/w/Source/Mode.h", Utf8.encode "UENUM() enum class EMode \x7b A \x7d;"),
     ("/w/Source/Plain.h", Utf8.encode "int Plain;")]
  files.foldl (fun tree file => (tree.addFile file.1 file.2 (seconds 1)).1)
    (FileTree.ofWorkingDir "/w")

/-- The headers in the order of their paths. -/
def headers : List Path :=
  ["/w/Source/Broken.h", "/w/Source/Foo.h", "/w/Source/Mode.h", "/w/Source/Plain.h"]

/-- The settings are those of the family and the headers are found, and what a build counts. -/
theorem evaluated_sources :
    (sources.readFile project.settingsFile = Family.sources.readFile project.settingsFile ∧
      settingsDir sources project.settingsFile = project.dir ∧
      (sources.makeDirs project.layout.generatedOut).2 = .ok () ∧
      Discovery.collect sources ⟨project.layout.generatedOut, project.settings.excludeDirs⟩
        (sources.nodes.size + 1) project.layout.sourceRoot = headers ∧
      headers.Pairwise fun p q => Path.le p q = true) ∧
    (execute (sources.makeDirs project.layout.generatedOut).1
      (planOf sources project.layout headers) false).2.2 =
        { headers := 4, entities := 2, failures := 2, written := 1, skipped := 1 } := by
  decide +kernel

theorem found_sources : project.Found sources headers where
  settings := (Project.readSettings_of_readFile evaluated_sources.1.1).trans
    Family.found_sources.settings
  dir := evaluated_sources.1.2.1
  made := evaluated_sources.1.2.2.1
  collected := evaluated_sources.1.2.2.2.1
  sorted := evaluated_sources.1.2.2.2.2

/-- The class has one file written and one that failed, and the enumeration one that was left
alone. -/
theorem counts_add_up_sources :
    (generate sources project.settingsFile false).result =
        .ok { headers := 4, entities := 2, failures := 2, written := 1, skipped := 1 } ∧
      ∃ settings, readSettings sources project.settingsFile = .ok settings ∧
        let p := plan sources settings (settingsDir sources project.settingsFile)
        4 = p.batch.parsed.length + p.batch.failures.length ∧
        2 = p.batch.parsed.countP (·.entity.isSome) ∧
        1 + 1 + (2 - p.batch.failures.length) = p.artifactCount p.batch.parsed := by
  have hresult := (found_sources.generate_eq false).2
  rw [evaluated_sources.2] at hresult
  obtain ⟨settings, hsettings, hheaders, hentities, -, hsum⟩ := counts_add_up hresult
  exact ⟨hresult, settings, hsettings, hheaders, hentities, hsum⟩

end Counting

end Build

end Registrar
