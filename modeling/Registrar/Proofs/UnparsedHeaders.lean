import Registrar.Proofs.CurrentArtifacts

/-!
# Headers that cannot be parsed

A header that cannot be parsed keeps its entry, and the entry does not make its files stale. But
two headers may have had a class of the same name, and then both are recorded with the same files.
When one of them is gone and the other cannot be parsed, the files are stale by the entry of the
first, and nothing says any more that they belong to the second
(`Build.Project.removed_iff_dropped_elsewhere`).
-/

namespace Registrar.Build

open FileTree (Apart Touches)

namespace Project

variable {pr : Project} {tree : FileTree} {force : Bool} {q : Path}

/-- A file at the path of an artifact that stands before a build stands after it, unless it is
listed in a dropped entry and is no artifact of the build. -/
theorem stands_generate_iff (hsep : Separate pr.layout)
    (hsettings : readSettings tree pr.settingsFile = .ok pr.settings)
    (hdir : settingsDir tree pr.settingsFile = pr.dir) {summary : Summary}
    (hresult : (generate tree pr.settingsFile force).result = .ok summary)
    (hsaved : pr.Saved (pr.cacheIn tree)) (hq : Artifact.IsPath pr.layout.generatedOut q)
    (hstands : tree.Stands q) :
    (generate tree pr.settingsFile force).tree.Stands q ↔
      (Dropped (pr.plan tree) (pr.cacheIn tree) q → (pr.plan tree).IsArtifact q) := by
  have hp := regular pr tree
  have hrendered : ((pr.plan tree).rendered (tree.makeDirs pr.layout.generatedOut).1
      force).tree.Stands q := by
    have hmade := (FileTree.touches_makeDirs tree pr.layout.generatedOut).retains
      fun _ hf => hf.elim
    exact (Plan.retains_pass (pr.plan tree) force _ ((pr.plan tree).start _)).stands
      (hmade.stands hstands)
  obtain ⟨loc, hloc⟩ := hrendered.exists_locate
  have hlists : (pr.plan tree).ListsArtifacts ((pr.plan tree).rendered
      (tree.makeDirs pr.layout.generatedOut).1 force).cache :=
    Plan.ListsArtifacts.rendered hp force hsaved.isPath
  rw [(generate_of_ok hsettings hdir hresult).2.1, Plan.execute_fst,
    Plan.stands_finished_iff hsep (fun f hf => hp.isPath (Plan.mem_files_rendered_iff.mp hf)) ?_ hq
      hloc, mem_stale_iff_dropped, Plan.mem_files_rendered_iff]
  · exact and_iff_right hrendered
  · intro f hf
    obtain ⟨entry, hentry, hartifact⟩ := List.mem_flatMap.mp hf
    obtain ⟨header, hget⟩ := BuildCache.exists_get?_of_mem_stale hentry
    exact hlists header entry hget f hartifact

/-- An entry is dropped when its header was not found or was parsed to nothing. -/
theorem not_mem_liveHeaders_iff {header : Path} :
    header ∉ liveHeaders (pr.plan tree).headers (pr.plan tree).batch.parsed ↔
      header ∉ (pr.plan tree).headers ∨
        ∃ h ∈ (pr.plan tree).batch.parsed, h.path = header ∧ h.entity = none := by
  rw [Plan.mem_liveHeaders, Classical.not_and_iff_not_or_not]
  simp only [Classical.not_forall, ne_eq, Classical.not_not, exists_prop]

/-- **Which files of a header that cannot be parsed are removed.** Whatever cache builds of the
project have left: a header that is found but cannot be read or parsed keeps its entry. Of the files
that the entry lists, a build removes exactly those that are listed for another header as well,
which is gone or has no entity any more, and that are no artifacts of the build. -/
theorem removed_iff_dropped_elsewhere (hsep : Separate pr.layout)
    (hsettings : readSettings tree pr.settingsFile = .ok pr.settings)
    (hdir : settingsDir tree pr.settingsFile = pr.dir) {summary : Summary}
    (hresult : (generate tree pr.settingsFile force).result = .ok summary)
    (hsaved : pr.Saved (pr.cacheIn tree)) {header : Path} {entry : CacheEntry}
    (hunparsed : (pr.plan tree).Unparsed header)
    (hentry : (pr.cacheIn tree).get? header = some entry) :
    (pr.cacheAfter tree force).get? header = some entry ∧
      ∀ q ∈ entry.artifacts, tree.Stands q →
        (¬ (generate tree pr.settingsFile force).tree.Stands q ↔
          ¬ (pr.plan tree).IsArtifact q ∧
          ∃ other entry', other ≠ header ∧ (pr.cacheIn tree).get? other = some entry' ∧
            q ∈ entry'.artifacts ∧
            (other ∉ (pr.plan tree).headers ∨
              ∃ h ∈ (pr.plan tree).batch.parsed, h.path = other ∧ h.entity = none)) := by
  refine ⟨?_, fun q hq hstands => ?_⟩
  · have hsame : ((pr.plan tree).rendered (tree.makeDirs pr.layout.generatedOut).1
        force).cache.get? header = (pr.cacheIn tree).get? header :=
      Plan.get?_pass (regular pr tree) (List.Subset.refl _) hunparsed.not_reflects
    exact get?_cacheAfter.mpr ⟨hunparsed.mem_liveHeaders, hsame.trans hentry⟩
  · rw [stands_generate_iff hsep hsettings hdir hresult hsaved
      (hsaved.isPath header entry hentry q hq) hstands, Classical.not_imp, and_comm]
    refine and_congr_right fun _ => ⟨?_, ?_⟩
    · rintro ⟨other, entry', hget, hdead, hlisted⟩
      have hother : other ≠ header := fun heq => hdead (heq ▸ hunparsed.mem_liveHeaders)
      exact ⟨other, entry', hother, hget, hlisted, not_mem_liveHeaders_iff.mp hdead⟩
    · rintro ⟨other, entry', -, hget, hlisted, hdead⟩
      exact ⟨other, entry', hget, not_mem_liveHeaders_iff.mpr hdead, hlisted⟩

end Project

namespace Copying

open Family (project)

theorem kept_broken :
    project.Kept [(sources, project.cacheAfter sources false)] (project.cacheIn broken) :=
  found_sources.kept evaluated_broken.2.1.1 evaluated_broken.2.1.2.1

theorem stamped_broken :
    Project.Stamped [(sources, project.cacheAfter sources false)] broken :=
  found_sources.stamped evaluated_broken.2.2.1

theorem stands_broken : broken.Stands file :=
  evaluated_broken.2.2.2.1

/-- The file is listed for the header that was removed as well, and so it is removed. -/
theorem removed_iff_dropped_elsewhere_broken :
    Separate project.layout ∧ readSettings broken project.settingsFile = .ok project.settings ∧
      settingsDir broken project.settingsFile = project.dir ∧
      (∃ summary, (generate broken project.settingsFile false).result = .ok summary) ∧
      project.Saved (project.cacheIn broken) ∧
      (project.plan broken).Unparsed "/w/Source/Foo.h" ∧
      ∃ entry, (project.cacheIn broken).get? "/w/Source/Foo.h" = some entry ∧
        file ∈ entry.artifacts ∧ broken.Stands file ∧
        (project.cacheAfter broken false).get? "/w/Source/Foo.h" = some entry ∧
        ¬ (generate broken project.settingsFile false).tree.Stands file := by
  have hresult := (found_broken.generate_eq false).2
  obtain ⟨entry, hentry, hlisted⟩ := exists_entry_broken "/w/Source/Foo.h" (by decide)
  obtain ⟨entry', hentry', hlisted'⟩ :=
    exists_entry_broken "/w/Source/Copy.h" (by decide)
  obtain ⟨hkept, hremoved⟩ := Project.removed_iff_dropped_elsewhere Family.separate
    found_broken.settings found_broken.dir hresult kept_broken.saved unparsed_broken hentry
  refine ⟨Family.separate, found_broken.settings, found_broken.dir, ⟨_, hresult⟩,
    kept_broken.saved, unparsed_broken, entry, hentry, hlisted, stands_broken, hkept, ?_⟩
  apply (hremoved file hlisted stands_broken).mpr
  refine ⟨?_, "/w/Source/Copy.h", entry', by decide, hentry', hlisted', Or.inl ?_⟩
  · rintro ⟨_, h, hmem, -⟩
    rw [parsed_broken] at hmem
    cases hmem
  · rw [found_broken.headers_eq]
    decide

/-- **A header that cannot be parsed loses its file.** Two headers had a class of the same name. One
was removed and the other broken, with a new time of change; the broken one is still found and keeps
its entry, but the file that the entry lists is gone after the build. -/
theorem broken_header_loses_file :
    project.Kept [(sources, project.cacheAfter sources false)] (project.cacheIn broken) ∧
      Project.Stamped [(sources, project.cacheAfter sources false)] broken ∧
      (project.plan broken).Unparsed "/w/Source/Foo.h" ∧
      (∃ entry, (project.cacheIn broken).get? "/w/Source/Foo.h" = some entry ∧
        file ∈ entry.artifacts) ∧
      broken.Stands file ∧ ¬ (generate broken project.settingsFile false).tree.Stands file := by
  refine ⟨kept_broken, stamped_broken, unparsed_broken, exists_entry_broken _ (by decide),
    stands_broken, ?_⟩
  rw [(found_broken.generate_eq false).1]
  exact evaluated_broken.2.2.2.2

end Copying

end Registrar.Build
