import Registrar.Proofs.CacheRoundTrip
import Registrar.Proofs.Emission
import Registrar.Proofs.Sites

/-!
# What a build touches

A build writes artifacts, removes files of headers that are gone, saves its cache and lists files in
the project files; each of these touches its own paths. A cache that was saved is what its file gives
back (`BuildCache.load_of_holds`), and what every later build loads, whatever changes in other files
(`BuildCache.Remembers`).
-/

namespace Registrar

open FileTree (Apart Touches)

/-- Every entry of a dictionary is found under its key. -/
theorem Dict.get?_of_mem_entries {α : Type} {d : Dict α} {key : Text} {value : α}
    (h : (key, value) ∈ d.entries) : d.get? key = some value := by
  have hfind : ∀ entries : List (Text × α), (entries.Pairwise fun a b => a.1 < b.1) →
      (key, value) ∈ entries → entries.find? (fun e => e.1 = key) = some (key, value) := by
    intro entries
    induction entries with
    | nil => exact fun _ hmem => absurd hmem List.not_mem_nil
    | cons first rest ih =>
        intro hascending hmem
        obtain ⟨hfirst, hrest⟩ := List.pairwise_cons.mp hascending
        rcases List.mem_cons.mp hmem with rfl | hmem
        · exact List.find?_cons_of_pos (decide_eq_true rfl)
        · have hlt : first.1 < key := hfirst (key, value) hmem
          have hne : first.1 ≠ key := fun heq => List.lt_irrefl key (heq ▸ hlt)
          rw [List.find?_cons, decide_eq_false hne]
          exact ih hrest hmem
  unfold get?
  rw [hfind d.entries d.ascending h]
  rfl

theorem Dict.mem_entries_iff {α : Type} {d : Dict α} {key : Text} {value : α} :
    (key, value) ∈ d.entries ↔ d.get? key = some value :=
  ⟨get?_of_mem_entries, mem_entries_of_get?⟩

/-! ## The cache file -/

/-- Whether a file can be written is a matter of its path, not of its contents. -/
theorem FileTree.snd_settle_writeFile (tree : FileTree) (p : Path) (contents others : Bytes) :
    (tree.settle (tree.writeFile p contents)).2 = (tree.settle (tree.writeFile p others)).2 := by
  unfold writeFile
  split
  · rfl
  · split
    · rfl
    · split
      · rfl
      · rfl

namespace BuildCache

/-- The cache at a path is the given one, and stays it when other files change or directories are
made. -/
def Remembers (file : Path) (cache : BuildCache) (tree : FileTree) : Prop :=
  ∀ later, Touches (Apart file) tree later → (load later file).1 = cache

variable {file : Path} {cache : BuildCache} {tree before after : FileTree}

theorem Remembers.load_eq (h : Remembers file cache tree) : (load tree file).1 = cache :=
  h tree (.refl _ _)

theorem Remembers.of_touches {touched : Path → Prop} (h : Remembers file cache before)
    (htouches : Touches touched before after) (hapart : ∀ q, touched q → Apart file q) :
    Remembers file cache after :=
  fun later hlater => h later ((htouches.mono hapart).trans hlater)

/-- A file that holds a written cache gives it back, and the user is told nothing. -/
theorem load_of_holds (h : tree.Holds file cache.write) : load tree file = (cache, []) := by
  obtain ⟨modified, hread⟩ := h
  have htext : tree.readText file = .ok cache.write := by
    unfold FileTree.readText
    refine Header.bind_eq_ok_iff.mpr ⟨_, hread, ?_⟩
    dsimp only
    rw [Utf8.decode?_encode]
  unfold load
  rw [htext]
  dsimp only
  rw [read?_write]

theorem remembers_of_holds (h : tree.Holds file cache.write) : Remembers file cache tree :=
  fun _ hlater => congrArg Prod.fst (load_of_holds (h.of_touches hlater fun _ hq => hq))

/-- Where there is no file, there is nothing to remember. -/
theorem remembers_empty {loc : Location} (hloc : tree.locate file = .ok loc)
    (hnone : tree.node? loc = none) : Remembers file empty tree := by
  intro later hlater
  have hread := hlater.readFile_ne_ok (fun q hq => hq) hloc hnone
  cases hfile : later.readFile file with
  | ok read => exact absurd hfile (hread read)
  | error e =>
      unfold load FileTree.readText
      rw [hfile]
      rfl

/-- A cache is saved, or no file changes and there is an error. -/
theorem save_cases (cache : BuildCache) (tree : FileTree) (file : Path) :
    ((cache.save tree file).2 ≠ .ok () ∧
        Touches (fun _ => False) tree (cache.save tree file).1) ∨
      (Touches (· = file) tree (cache.save tree file).1 ∧
        (cache.save tree file).1.Holds file cache.write) := by
  have hhome := FileTree.touches_makeHome tree file
  unfold save
  cases hmade : tree.makeHome file with
  | mk made result =>
      rw [hmade] at hhome
      cases result with
      | error e => exact Or.inl ⟨fun hsaved => (by cases hsaved), hhome⟩
      | ok done =>
          cases hwrite : made.writeText file cache.write with
          | error e =>
              left
              simp only [hwrite]
              exact ⟨fun hsaved => (by cases hsaved), hhome⟩
          | ok written =>
              right
              simp only [hwrite]
              obtain ⟨htouches, hread⟩ := FileTree.touches_writeFile hwrite
              exact ⟨(hhome.mono fun _ hp => hp.elim).trans htouches, made.now, hread⟩

/-- **A cache that is saved is loaded again.** Whatever its keys, digests, times and paths are, no cache
is refused: saving fails where that of the empty cache does, for want of a place. Where it succeeds, the
file gives the same cache back. -/
theorem load_save (cache : BuildCache) (tree : FileTree) (file : Path) :
    (cache.save tree file).2 = (empty.save tree file).2 ∧
      ((cache.save tree file).2 = .ok () →
        load (cache.save tree file).1 file = (cache, [])) := by
  constructor
  · unfold save
    cases hmade : tree.makeHome file with
    | mk made result =>
        cases result with
        | error e => rfl
        | ok done =>
            exact congrArg (orWriteError file) (FileTree.snd_settle_writeFile made file _ _)
  · intro hsaved
    rcases save_cases cache tree file with ⟨hfailed, -⟩ | ⟨-, hholds⟩
    · exact absurd hsaved hfailed
    · exact load_of_holds hholds

/-- A cache with quotes, backslashes and controls in its only entry, and the last moment of all. -/
def awkward : BuildCache :=
  let last : Moment := ⟨Nat.pow 2 63 - 1, Nat.pow 10 9 - 1, by decide, by decide⟩
  empty.record "/w/Source/\"A\"\\\t.h"
    ⟨"\x00\x1f\"\\", last, ["/w/Generated/Ä\n\x7f.generated.cpp", []]⟩

theorem load_save_awkward :
    (awkward.save (FileTree.ofWorkingDir "/w") "/w/Generated/cache.json").2 = .ok () ∧
      load (awkward.save (FileTree.ofWorkingDir "/w") "/w/Generated/cache.json").1
        "/w/Generated/cache.json" = (awkward, []) := by
  have hsaved : (awkward.save (FileTree.ofWorkingDir "/w") "/w/Generated/cache.json").2 =
      .ok () := by decide +kernel
  exact ⟨hsaved, (load_save awkward _ _).2 hsaved⟩

theorem exists_of_isUnchanged {header : Path} {modified : Moment}
    (h : cache.isUnchanged tree header modified = true) :
    ∃ entry, cache.get? header = some entry ∧ entry.modified = modified := by
  unfold isUnchanged at h
  split at h
  · next entry hentry =>
    exact ⟨entry, hentry, of_decide_eq_true (Bool.and_eq_true_iff.mp h).1⟩
  · cases h

theorem mem_stale_iff {live : List Path} {entry : CacheEntry} :
    entry ∈ cache.stale live ↔ ∃ header, header ∉ live ∧ cache.get? header = some entry := by
  constructor
  · intro h
    obtain ⟨⟨header, found⟩, hmem, rfl⟩ := List.mem_map.mp h
    obtain ⟨hentry, hdead⟩ := List.mem_filter.mp hmem
    exact ⟨header, by simpa using hdead, Dict.get?_of_mem_entries hentry⟩
  · rintro ⟨header, hdead, hget⟩
    refine List.mem_map.mpr ⟨(header, entry), List.mem_filter.mpr ⟨?_, by simpa using hdead⟩, rfl⟩
    exact Dict.mem_entries_of_get? hget

theorem exists_get?_of_mem_stale {live : List Path} {entry : CacheEntry}
    (h : entry ∈ cache.stale live) : ∃ header, cache.get? header = some entry := by
  obtain ⟨header, -, hget⟩ := mem_stale_iff.mp h
  exact ⟨header, hget⟩

theorem get?_prune_eq_some_iff {live : List Path} {header : Path} {entry : CacheEntry} :
    (cache.prune live).get? header = some entry ↔
      header ∈ live ∧ cache.get? header = some entry := by
  unfold prune get?
  rw [Dict.get?_filter]
  by_cases hlive : header ∈ live
  · simp [hlive]
  · simp [hlive]

theorem get?_of_prune {live : List Path} {header : Path} {entry : CacheEntry}
    (h : (cache.prune live).get? header = some entry) : cache.get? header = some entry :=
  (get?_prune_eq_some_iff.mp h).2

end BuildCache

namespace Build

/-! ## Cleaning up -/

/-- A file of a header that is gone is removed, unless it is an artifact of this build. -/
theorem touches_removeStale (files : List Path) (state : FileTree × List Text) (p : Path) :
    Touches (fun q => q = p ∧ q ∉ files) state.1 (removeStale files state p).1 := by
  unfold removeStale
  dsimp only
  split
  · exact .refl _ _
  · next hany =>
    have hnew : p ∉ files := by
      intro hmem
      exact hany (List.any_eq_true.mpr ⟨p, hmem, beq_self_eq_true _⟩)
    split
    · next hremoved =>
      exact (FileTree.touches_removeFile hremoved).mono fun q hq => ⟨hq, hq ▸ hnew⟩
    · exact .refl _ _
    · exact .refl _ _

theorem touches_removeStale_foldl (files stale : List Path) (state : FileTree × List Text) :
    Touches (fun q => q ∈ stale ∧ q ∉ files) state.1 (stale.foldl (removeStale files) state).1 := by
  induction stale generalizing state with
  | nil => exact .refl _ _
  | cons p rest ih =>
      have hfirst : Touches (fun q => q ∈ p :: rest ∧ q ∉ files) state.1
          (removeStale files state p).1 :=
        (touches_removeStale files state p).mono fun q hq => ⟨hq.1 ▸ List.mem_cons_self, hq.2⟩
      exact hfirst.trans ((ih _).mono fun q hq => ⟨List.mem_cons_of_mem _ hq.1, hq.2⟩)

/-- Which files are removed hangs on the tree alone. -/
theorem removeStale_foldl_fst (files stale : List Path) (tree : FileTree) (log log' : List Text) :
    (stale.foldl (removeStale files) (tree, log)).1 =
      (stale.foldl (removeStale files) (tree, log')).1 := by
  induction stale generalizing tree log log' with
  | nil => rfl
  | cons p rest ih =>
      have hstep : ∀ log, ∃ log₁, removeStale files (tree, log) p =
          ((removeStale files (tree, log') p).1, log₁) := by
        intro log
        unfold removeStale
        dsimp only
        split
        · exact ⟨_, rfl⟩
        · split
          · exact ⟨_, rfl⟩
          · exact ⟨_, rfl⟩
          · exact ⟨_, rfl⟩
      obtain ⟨log₁, h₁⟩ := hstep log
      obtain ⟨log₂, h₂⟩ := hstep log'
      rw [List.foldl_cons, List.foldl_cons, h₁, h₂]
      exact ih _ _ _

/-- Stale files are removed first, and then the cache is saved. -/
theorem Progress.finish_cases (s : Progress) (live : List Path) (cacheFile : Path) :
    ∃ swept, Touches (fun q => q ∈ (s.cache.stale live).flatMap (·.artifacts) ∧ q ∉ s.files)
        s.tree swept ∧
      (Touches (fun _ => False) swept (s.finish live cacheFile).tree ∨
        (Touches (· = cacheFile) swept (s.finish live cacheFile).tree ∧
          (s.finish live cacheFile).tree.Holds cacheFile (s.cache.prune live).write)) :=
  ⟨_, touches_removeStale_foldl s.files _ (s.tree, _),
    (BuildCache.save_cases _ _ _).imp_left And.right⟩

/-! ## Project files -/

theorem touches_patch {before after : FileTree} {p : Path} {edit : Text → Option Text}
    {changed : Bool} (h : patch before p edit = .ok (after, changed)) :
    Touches (· = p) before after := by
  unfold patch at h
  cases hread : before.readText p with
  | error e =>
      rw [hread] at h
      cases h
  | ok t =>
      rw [hread] at h
      obtain ⟨found, hfound, h⟩ := Header.bind_eq_ok_iff.mp h
      cases hfound
      split at h
      · cases h
        exact .refl _ _
      · next patched _ =>
        cases hwrite : before.writeText p patched with
        | error e =>
            rw [hwrite] at h
            cases h
        | ok written =>
            rw [hwrite] at h
            cases h
            exact (FileTree.touches_writeFile hwrite).1

theorem touches_patchProject (tree : FileTree) (project : Path) (files : List Path) :
    Touches (· = project) tree (patchProject tree project files).tree := by
  unfold patchProject
  split
  · next hpatch => exact touches_patch hpatch
  · exact .refl _ _

theorem touches_patchFilters (tree : FileTree) (filters dir : Path) (files : List Path) :
    Touches (· = filters) tree (patchFilters tree filters dir files).tree := by
  unfold patchFilters
  split
  · split
    · next hpatch => exact touches_patch hpatch
    · exact .refl _ _
  · exact .refl _ _

/-- Only the project files are touched when files are listed in them. -/
theorem touches_updateProject (tree : FileTree) (layout : Layout) (files : List Path) :
    Touches (fun q => layout.project = some q ∨ layout.filters = some q) tree
      (updateProject tree layout files).1 := by
  unfold updateProject
  split
  · exact .refl _ _
  · next project hproject =>
    have hlisted : Touches (fun q => layout.project = some q ∨ layout.filters = some q) tree
        (patchProject tree project files).tree :=
      (touches_patchProject tree project files).mono fun q hq => Or.inl (hq ▸ hproject)
    dsimp only
    split
    · exact hlisted
    · next filters hfilters =>
      exact hlisted.trans ((touches_patchFilters _ filters _ files).mono
        fun q hq => Or.inr (hq ▸ hfilters))

end Build

end Registrar
