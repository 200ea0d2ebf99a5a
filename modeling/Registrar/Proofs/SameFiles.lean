import Registrar.Proofs.BuildFrame
import Registrar.Proofs.Directories

/-!
# Writing what is there

Two trees with the same contents at every location have no changes between them
(`FileTree.changes_eq_nil`). A file that is written with the contents that it has gets another time
and nothing more (`FileTree.writeText_of_holds`), and a cache that was saved is saved again in this
way (`BuildCache.save_again`).
-/

namespace Registrar

open FileTree (Touches)

namespace FileTree

variable {tree before after : FileTree} {loc : Location} {contents : Bytes}

/-! ## Comparing trees -/

theorem contents?_eq_some_iff : tree.contents? loc = some contents ↔
    ∃ modified, tree.node? loc = some (.file contents modified) := by
  have hget : ∀ modified, tree.node? loc = some (.file contents modified) ↔
      tree.nodes.get? loc = some (.file contents modified) := by
    intro modified
    by_cases hroot : loc = []
    · subst hroot
      refine ⟨fun h => (by cases h), fun h => ?_⟩
      obtain ⟨dir, name, hchild, -⟩ := tree.housed [] _ h
      exact absurd hchild.symm (Location.child_ne_nil dir name)
    · rw [node?, if_neg hroot]
  simp only [hget]
  unfold contents?
  split
  · next found modified hnode =>
    rw [hnode]
    constructor
    · intro h
      exact ⟨modified, by rw [Option.some.inj h]⟩
    · rintro ⟨modified', h⟩
      cases h
      rfl
  · next hno =>
    constructor
    · intro h
      cases h
    · rintro ⟨modified, h⟩
      exact absurd h (hno contents modified)

theorem mem_files_iff : (loc, contents) ∈ tree.files ↔ tree.contents? loc = some contents := by
  unfold files contents?
  rw [List.mem_filterMap]
  constructor
  · rintro ⟨⟨l, node⟩, hmem, hfile⟩
    cases node with
    | directory => cases hfile
    | file c modified =>
        cases hfile
        rw [Dict.mem_entries_iff.mp hmem]
  · intro h
    cases hnode : tree.nodes.get? loc with
    | none =>
        rw [hnode] at h
        cases h
    | some node =>
        rw [hnode] at h
        refine ⟨(loc, node), Dict.mem_entries_iff.mpr hnode, ?_⟩
        cases node with
        | directory => cases h
        | file c modified =>
            cases h
            rfl

/-- Trees with the same contents have no changes between them. -/
theorem changes_eq_nil (h : ∀ loc, after.contents? loc = before.contents? loc) :
    before.changes after = [] := by
  unfold changes
  rw [List.append_eq_nil_iff, List.filterMap_eq_nil_iff, List.filterMap_eq_nil_iff]
  constructor
  · rintro ⟨loc, contents⟩ hmem
    dsimp only
    rw [h, mem_files_iff.mp hmem]
    rfl
  · rintro ⟨loc, contents⟩ hmem
    exact if_pos ((h loc).symm.trans (mem_files_iff.mp hmem))

theorem newDirs_eq_nil
    (h : ∀ loc, after.node? loc = some .directory → before.node? loc = some .directory) :
    before.newDirs after = [] := by
  unfold newDirs
  rw [List.filterMap_eq_nil_iff]
  rintro ⟨loc, node⟩ hmem
  dsimp only
  apply if_neg
  rintro ⟨rfl, hnew⟩
  exact hnew (h loc (node?_eq_directory_iff.mpr (Or.inr (Dict.mem_entries_iff.mp hmem))))

/-! ## Writing again -/

/-- The tree at another time. -/
def later (tree : FileTree) (clock : Moment) : FileTree :=
  { tree with now := clock }

theorem touches_later (tree : FileTree) (clock : Moment) :
    Touches (fun _ => False) tree (tree.later clock) where
  workingDir := rfl
  keeps _ hloc := hloc
  frame _ := Or.inl rfl

/-- A text that is written where it stands changes nothing but the time of the file. -/
theorem writeText_of_holds {p : Path} {t : Text} (h : tree.Holds p t)
    (hp : p.getLast? ≠ some '/') : ∃ written, tree.writeText p t = .ok written ∧
      (∀ loc, written.contents? loc = tree.contents? loc) ∧
      ∀ loc, written.node? loc = some .directory → tree.node? loc = some .directory := by
  obtain ⟨modified, hread⟩ := h
  obtain ⟨loc, hloc, hfile⟩ := readFile_eq_ok_iff.mp hread
  have free : tree.node? loc ≠ some .directory := by
    rw [hfile]
    exact fun heq => by cases heq
  refine ⟨tree.put loc (.file (Utf8.encode t) tree.now) (housed_of_locate hloc free) free, ?_,
    fun l => ?_, fun l hl => ?_⟩
  · exact writeFile_of_free hp hloc free _
  · apply Option.ext
    intro contents
    rw [contents?_eq_some_iff, contents?_eq_some_iff]
    simp only [node?_put]
    split
    · next heq =>
      subst heq
      rw [hfile]
      simp
    · exact Iff.rfl
  · rw [node?_put] at hl
    split at hl
    · cases hl
    · exact hl

end FileTree

namespace BuildCache

variable {cache : BuildCache} {before after : FileTree} {file : Path}

/-- A cache that was saved can be saved again, and only the time of its file changes. -/
theorem save_again (h : (cache.save before file).2 = .ok ())
    (hafter : Touches (fun _ => False) (cache.save before file).1 after) :
    (∀ loc, (cache.save after file).1.contents? loc = after.contents? loc) ∧
      ∀ loc, (cache.save after file).1.node? loc = some .directory →
        after.node? loc = some .directory := by
  cases hmade : before.makeHome file with
  | mk made result =>
      unfold save at h hafter
      rw [hmade] at h hafter
      cases result with
      | error e => cases h
      | ok done =>
          cases hwrite : made.writeText file cache.write with
          | error e =>
              simp only [hwrite] at h
              cases h
          | ok written =>
              simp only [hwrite] at hafter
              obtain ⟨htouches, hread⟩ := FileTree.touches_writeFile hwrite
              have hholds : after.Holds file cache.write :=
                FileTree.Holds.of_touches ⟨made.now, hread⟩ hafter fun _ hq => hq.elim
              have hslash : file.getLast? ≠ some '/' := by
                intro hlast
                unfold FileTree.writeText FileTree.writeFile at hwrite
                rw [if_pos hlast] at hwrite
                cases hwrite
              have hhome : after.makeHome file = (after, .ok ()) := by
                have hdone : (before.makeHome file).2 = .ok () := by rw [hmade]
                apply FileTree.makeHome_again hdone
                rw [hmade]
                exact htouches.trans (hafter.mono fun _ hq => hq.elim)
              obtain ⟨again, hagain, hsame⟩ := FileTree.writeText_of_holds hholds hslash
              unfold save
              rw [hhome]
              simp only [hagain]
              exact hsame

end BuildCache

end Registrar
