import Registrar.Proofs.Insertions

/-!
# Items added to a project

A project gets a line for each file that it lacks. Where its openings keep to their lines, nothing
is added exactly when all files are listed; otherwise the lines are put in as they are, and then
each file is listed, a new one once. A file whose path is empty, seen from the project, is the
exception: its line names no item, so it is added again every time.
-/

namespace Registrar.ProjectItem

/-! ## Items not seen before -/

variable {seen : List (ItemKind × Text)} {items : List ProjectItem} {i : ProjectItem}

theorem of_mem_unseen (h : i ∈ unseen seen items) : i ∈ items ∧ i.key ∉ seen := by
  induction items generalizing seen with
  | nil => cases h
  | cons j items ih =>
      rw [unseen] at h
      split at h
      · next hseen =>
        obtain ⟨hmem, hkey⟩ := ih h
        exact ⟨List.mem_cons_of_mem j hmem, hkey⟩
      · next hseen =>
        rcases List.mem_cons.mp h with rfl | h
        · exact ⟨List.mem_cons_self, hseen⟩
        · obtain ⟨hmem, hkey⟩ := ih h
          exact ⟨List.mem_cons_of_mem j hmem, fun hin => hkey (List.mem_cons_of_mem _ hin)⟩

theorem key_mem_unseen (h : i ∈ items) (hkey : i.key ∉ seen) :
    i.key ∈ (unseen seen items).map key := by
  induction items generalizing seen with
  | nil => cases h
  | cons j items ih =>
      rw [unseen]
      by_cases hij : i.key = j.key
      · rw [if_neg (hij ▸ hkey), List.map_cons, hij]
        exact List.mem_cons_self
      · have hmem : i ∈ items := (List.mem_cons.mp h).resolve_left fun heq => hij (heq ▸ rfl)
        split
        · exact ih hmem hkey
        · refine List.mem_cons_of_mem _ (ih hmem fun hin => ?_)
          rcases List.mem_cons.mp hin with hin | hin
          · exact hij hin
          · exact hkey hin

theorem nodup_unseen : ((unseen seen items).map key).Nodup := by
  induction items generalizing seen with
  | nil => exact List.nodup_nil
  | cons j items ih =>
      rw [unseen]
      split
      · exact ih
      · refine List.nodup_cons.mpr ⟨fun hin => ?_, ih⟩
        obtain ⟨i, hi, hkey⟩ := List.mem_map.mp hin
        exact (of_mem_unseen hi).2 (hkey ▸ List.mem_cons_self)

theorem unseen_eq_nil_iff : unseen seen items = [] ↔ ∀ i ∈ items, i.key ∈ seen := by
  constructor
  · intro hnil i hi
    refine Decidable.byContradiction fun hkey => ?_
    have hmem := key_mem_unseen hi hkey
    rw [hnil] at hmem
    cases hmem
  · intro h
    rw [List.eq_nil_iff_forall_not_mem]
    intro i hi
    exact (of_mem_unseen hi).2 (h i (of_mem_unseen hi).1)

/-- Items for the same file both have an empty path or neither has. -/
theorem path_eq_nil_iff_of_key_eq {j : ProjectItem} (h : i.key = j.key) :
    i.path = [] ↔ j.path = [] := by
  have hlength := congrArg (fun key => List.length key.2) h
  simp only [key, Text.lower, backslashed, List.length_map] at hlength
  rw [← List.length_eq_zero_iff, ← List.length_eq_zero_iff, hlength]

end Registrar.ProjectItem

namespace Registrar.ProjectFile

open Text ProjectItem

/-! ## The line for an item -/

/-- The line that lists an item. -/
def itemLine (nl : Text) (i : ProjectItem) : Text :=
  "    <" ++ i.kind.element ++ " Include=\"" ++ i.path ++ "\" />" ++ nl

/-- The line has one tag, with an opening. -/
theorem itemLine_eq (nl : Text) (i : ProjectItem) :
    itemLine nl i = "    " ++ (opening i.kind.element " " ++ (i.path ++ '"' :: (" />" ++ nl))) := by
  unfold itemLine opening
  simp only [List.append_assoc, List.cons_append]
  rfl

section

variable {nl : Text} {i : ProjectItem}

theorem block_itemLine (hnl : IsLineBreak nl) (hpath : Unmarked i.path) :
    Block (itemLine nl i) := by
  have hsealed : Sealed (itemLine nl i) := by
    refine ⟨"    ", i.kind.element ++ (" Include=\"" ++ (i.path ++ "\" /")), nl, ?_, fun hmem => ?_,
      hnl.notMem, fun hfilter => ?_⟩
    · unfold itemLine
      simp only [List.append_assoc]
      rfl
    · rcases List.mem_append.mp hmem with hmem | hmem
      · exact absurd (isName_element i.kind _ hmem) (by decide)
      rcases List.mem_append.mp hmem with hmem | hmem
      · exact absurd hmem (by decide)
      rcases List.mem_append.mp hmem with hmem | hmem
      · exact hpath.2.1 hmem
      · exact absurd hmem (by decide)
    · obtain ⟨name, hname⟩ := exists_element_eq i.kind
      rw [hname] at hfilter
      exact absurd (Option.some.inj hfilter) (by decide)
  rw [itemLine_eq] at hsealed ⊢
  exact block_of_opening (List.all_eq_true.mp (by decide)) hsealed

theorem notMem_lineEnd (hnl : IsLineBreak nl) : '<' ∉ (" />" : Text) ++ nl := by
  rcases hnl with rfl | rfl
  · decide
  · decide

theorem tidy_itemLine (hnl : IsLineBreak nl) (hpath : Unmarked i.path) (kind : ItemKind) :
    Tidy kind.element (itemLine nl i) := by
  have hblanks : Tidy kind.element "    " := by
    cases kind <;> exact tidy_of_check (by decide)
  rw [itemLine_eq]
  exact hblanks.append (tidy_opening (isName_element kind) (isName_element i.kind) gap_space (by decide)
      hpath (notMem_lineEnd hnl))
    (uncrossed_of_fenced (isName_element kind) (fenced_opening i.kind " " _) _)

/-- A line lists its item, unless that has no path. -/
theorem items_itemLine (hnl : IsLineBreak nl) (hpath : Unmarked i.path) :
    items (itemLine nl i) = if i.path = [] then [] else [i] := by
  split
  · next hnil =>
    obtain ⟨kind, path⟩ := i
    obtain rfl : path = [] := hnil
    refine findAll_eq_nil_of_fails ?_
    rcases hnl with rfl | rfl <;> cases kind <;> decide
  · next hne =>
    have hblanks : ∀ kind : ItemKind, Tidy kind.element "    " := by
      intro kind
      cases kind <;> exact tidy_of_check (by decide)
    have hpiece : ∀ s, takeItem? ((opening i.kind.element " " ++ (i.path ++ ['"'])) ++ s) =
        some (i, s) := by
      intro s
      have hread := takeItem?_opening hne hpath.1 gap_space s
      simpa only [List.append_assoc, List.singleton_append] using hread
    have htext : opening i.kind.element " " ++ (i.path ++ '"' :: (" />" ++ nl)) =
        (opening i.kind.element " " ++ (i.path ++ ['"'])) ++ (" />" ++ nl) := by
      simp only [List.append_assoc, List.singleton_append]
    rw [itemLine_eq, items_append hblanks fun kind =>
        uncrossed_of_fenced (isName_element kind) (fenced_opening i.kind " " _) _,
      items_eq_nil_of_notMem (by decide), List.nil_append, htext]
    show findAll takeItem? _ = _
    rw [TakesPiece.findAll_piece (by simp [opening]) hpiece]
    exact congrArg (i :: ·) (items_eq_nil_of_notMem (notMem_lineEnd hnl))

end

/-! ## Lines for a list of items -/

section

variable {nl : Text} {l : List ProjectItem}

theorem lines_eq_nil_or_block (hnl : IsLineBreak nl) (hpaths : ∀ i ∈ l, Unmarked i.path) :
    l.flatMap (itemLine nl) = [] ∨ Block (l.flatMap (itemLine nl)) := by
  by_cases hnil : l = []
  · exact .inl (by rw [hnil]; rfl)
  · exact .inr (block_flatMap (fun i hi => block_itemLine hnl (hpaths i hi)) hnil)

theorem tidy_lines (hnl : IsLineBreak nl) (hpaths : ∀ i ∈ l, Unmarked i.path) (kind : ItemKind) :
    Tidy kind.element (l.flatMap (itemLine nl)) :=
  tidy_flatMap (isName_element kind) (fun i hi => block_itemLine hnl (hpaths i hi))
    fun i hi => tidy_itemLine hnl (hpaths i hi) kind

theorem items_lines (hnl : IsLineBreak nl) (hpaths : ∀ i ∈ l, Unmarked i.path) :
    items (l.flatMap (itemLine nl)) = l.filter (·.path ≠ []) := by
  rw [items_flatMap (fun i hi => block_itemLine hnl (hpaths i hi))
    fun i hi => tidy_itemLine hnl (hpaths i hi)]
  induction l with
  | nil => rfl
  | cons i l ih =>
      rw [List.forall_mem_cons] at hpaths
      rw [List.flatMap_cons, ih hpaths.2, items_itemLine hnl hpaths.1]
      by_cases hnil : i.path = []
      · simp [hnil]
      · simp [hnil]

/-- The items with a path are added to those that a text lists, and nothing else is. -/
theorem items_insertItems_perm {t : Text} (hnl : IsLineBreak nl)
    (hpaths : ∀ i ∈ l, Unmarked i.path) (htidy : ∀ kind : ItemKind, Tidy kind.element t) :
    (items (insertItems (itemLine nl) l nl t)).Perm (l.filter (·.path ≠ []) ++ items t) := by
  obtain ⟨mid, hcompile, hinclude⟩ := inserted_insertItems (itemLine nl) l nl t
  have hkind : ∀ kind, ∀ i ∈ l.filter (·.kind = kind), Unmarked i.path :=
    fun kind i hi => hpaths i ((List.mem_filter.mp hi).1)
  have hmid : ∀ kind : ItemKind, Tidy kind.element mid := fun kind =>
    hcompile.tidy hnl (lines_eq_nil_or_block hnl (hkind .compile))
      (tidy_lines hnl (hkind .compile) kind) (htidy kind)
  have hfirst := hcompile.items_perm hnl (lines_eq_nil_or_block hnl (hkind .compile))
    (tidy_lines hnl (hkind .compile)) htidy
  have hsecond := hinclude.items_perm hnl (lines_eq_nil_or_block hnl (hkind .include_))
    (tidy_lines hnl (hkind .include_)) hmid
  unfold linesOf at hfirst hsecond
  rw [items_lines hnl (hkind _)] at hfirst hsecond
  -- the two kinds make up the whole list
  have hboth : ((l.filter (·.kind = .include_)).filter (·.path ≠ []) ++
      (l.filter (·.kind = .compile)).filter (·.path ≠ [])).Perm (l.filter (·.path ≠ [])) := by
    have hother : ∀ i : ProjectItem, decide (i.kind = .compile) = !decide (i.kind = .include_) := by
      intro i
      cases i.kind <;> rfl
    simp only [hother, ← List.filter_append]
    exact (List.filter_append_perm (fun i : ProjectItem => decide (i.kind = .include_)) l).filter _
  exact hsecond.trans ((hfirst.append_left _).trans
    ((List.append_assoc _ _ _).symm ▸ hboth.append_right (items t)))

end

/-! ## A project with all its files -/

/-- The keys of the items that a text lists. -/
def keys (t : Text) : List (ItemKind × Text) :=
  (items t).map ProjectItem.key

/-- The items that a project gets for the files it lacks. -/
def missingItems (t : Text) (projectDir : Path) (files : List Path) : List ProjectItem :=
  unseen (keys t) (ofFiles projectDir files)

section

variable {t out : Text} {projectDir : Path} {files : List Path}

theorem addItems?_eq (t : Text) (projectDir : Path) (files : List Path) :
    addItems? t projectDir files =
      if missingItems t projectDir files = [] then none
      else some (insertItems (itemLine (lineBreak t)) (missingItems t projectDir files)
        (lineBreak t) t) := rfl

theorem addItems?_eq_none_iff :
    addItems? t projectDir files = none ↔ ∀ i ∈ ofFiles projectDir files, i.key ∈ keys t := by
  rw [addItems?_eq, ← unseen_eq_nil_iff]
  unfold missingItems
  split
  · next hnil => exact ⟨fun _ => hnil, fun _ => rfl⟩
  · next hne => exact ⟨nofun, fun hnil => absurd hnil hne⟩

theorem eq_of_addItems? (h : addItems? t projectDir files = some out) :
    out = insertItems (itemLine (lineBreak t)) (missingItems t projectDir files) (lineBreak t) t := by
  rw [addItems?_eq] at h
  split at h
  · cases h
  · exact (Option.some.inj h).symm

theorem path_ne_nil_of_key_mem {i : ProjectItem} (h : i.key ∈ keys t) : i.path ≠ [] := by
  obtain ⟨j, hj, hkey⟩ := List.mem_map.mp h
  obtain ⟨source, rest, hread⟩ := exists_of_mem_findAll hj
  obtain ⟨hne, -⟩ := takeElement?_eq_some_iff.mp (takeItem?_eq_some_iff.mp hread)
  exact fun hnil => hne ((path_eq_nil_iff_of_key_eq hkey).mpr hnil)

/-- After an item was added for each of the files a key is listed as often as before, and once more
when it belongs to a file that was missing. -/
theorem count_keys_of_addItems? (htidy : ∀ kind : ItemKind, Tidy kind.element t)
    (hpaths : ∀ i ∈ ofFiles projectDir files, Unmarked i.path)
    (h : addItems? t projectDir files = some out) {i : ProjectItem}
    (hi : i ∈ ofFiles projectDir files) (hpath : i.path ≠ []) :
    (keys out).count i.key = (keys t).count i.key + if i.key ∈ keys t then 0 else 1 := by
  have hmissing : ∀ j ∈ missingItems t projectDir files, Unmarked j.path :=
    fun j hj => hpaths j (of_mem_unseen hj).1
  have hperm := items_insertItems_perm (isLineBreak_lineBreak t) hmissing htidy
  rw [← eq_of_addItems? h] at hperm
  have hcount : (keys out).count i.key =
      (((missingItems t projectDir files).filter (·.path ≠ [])).map ProjectItem.key).count i.key +
        (keys t).count i.key := by
    unfold keys
    rw [← List.count_append, ← List.map_append]
    exact (hperm.map ProjectItem.key).count_eq i.key
  have hnodup : (((missingItems t projectDir files).filter (·.path ≠ [])).map
      ProjectItem.key).Nodup :=
    nodup_unseen.sublist (List.filter_sublist.map _)
  have hadded : i.key ∈ ((missingItems t projectDir files).filter (·.path ≠ [])).map
      ProjectItem.key ↔ i.key ∉ keys t := by
    constructor
    · intro hmem
      obtain ⟨j, hj, hkey⟩ := List.mem_map.mp hmem
      rw [← hkey]
      exact (of_mem_unseen ((List.mem_filter.mp hj).1)).2
    · intro hnot
      obtain ⟨j, hj, hkey⟩ := List.mem_map.mp (key_mem_unseen hi hnot)
      have hne : j.path ≠ [] := fun hnil => hpath ((path_eq_nil_iff_of_key_eq hkey).mp hnil)
      exact List.mem_map.mpr ⟨j, List.mem_filter.mpr ⟨hj, decide_eq_true hne⟩, hkey⟩
  rw [hnodup.count] at hcount
  by_cases hlisted : i.key ∈ keys t
  · rw [if_neg fun hmem => hadded.mp hmem hlisted] at hcount
    rw [if_pos hlisted, hcount, Nat.add_comm]
  · rw [if_pos (hadded.mpr hlisted)] at hcount
    rw [if_neg hlisted, hcount, Nat.add_comm]

/-- Files are added to a project once and for all. A tidy project is left alone exactly when it
lists all of them. Otherwise lines for the missing ones are put in, those of the compiled files and
those of the included ones, and then every file is listed, a new one once. The second time nothing
is left to do, unless a file has no path. -/
theorem addItems?_adds_each_once (htidy : ∀ kind : ItemKind, Tidy kind.element t)
    (hpaths : ∀ i ∈ ofFiles projectDir files, Unmarked i.path) :
    (addItems? t projectDir files = none ↔
      ∀ i ∈ ofFiles projectDir files, i.key ∈ keys t) ∧
    ∀ out, addItems? t projectDir files = some out →
      (∀ i ∈ ofFiles projectDir files, i.path ≠ [] → i.key ∈ keys out) ∧
      (∀ i ∈ ofFiles projectDir files, i.path ≠ [] → i.key ∉ keys t →
        (keys out).count i.key = 1) ∧
      (∃ mid,
        Inserted (lineBreak t) (linesOf (itemLine (lineBreak t))
          (missingItems t projectDir files) .compile) t mid ∧
        Inserted (lineBreak t) (linesOf (itemLine (lineBreak t))
          (missingItems t projectDir files) .include_) mid out) ∧
      (addItems? out projectDir files = none ↔
        ∀ i ∈ ofFiles projectDir files, i.path ≠ []) := by
  refine ⟨addItems?_eq_none_iff, fun out h => ?_⟩
  have hcount := fun i => count_keys_of_addItems? (i := i) htidy hpaths h
  have hlisted : ∀ i ∈ ofFiles projectDir files, i.path ≠ [] → i.key ∈ keys out := by
    intro i hi hpath
    refine List.count_pos_iff.mp ?_
    rw [hcount i hi hpath]
    split
    · next hmem => exact Nat.add_pos_left (List.count_pos_iff.mpr hmem) 0
    · exact Nat.succ_pos _
  refine ⟨hlisted, fun i hi hpath hnot => ?_, ?_, ?_⟩
  · rw [hcount i hi hpath, if_neg hnot, List.count_eq_zero_of_not_mem hnot]
  · rw [eq_of_addItems? h]
    exact inserted_insertItems _ _ _ t
  · rw [addItems?_eq_none_iff]
    exact ⟨fun hall i hi => path_ne_nil_of_key_mem (hall i hi),
      fun hall i hi => hlisted i hi (hall i hi)⟩

end

/-- A project with one compiled file. -/
def oneFile : Text :=
  "<Project>\n  <ItemGroup>\n    <ClCompile Include=\"A.cpp\" />\n  </ItemGroup>\n</Project>\n"

/-- The file that the project has, in another spelling, and a new one in two spellings. -/
def threeFiles : List Path :=
  ["/proj/a.cpp", "/proj/Gen/B.h", "/proj/gen/b.h"]

theorem addItems?_adds_each_once_header :
    (∀ kind : ItemKind, Tidy kind.element oneFile) ∧
      (∀ i ∈ ofFiles "/proj" threeFiles, Unmarked i.path) ∧
      ∃ out, addItems? oneFile "/proj" threeFiles = some out ∧
        (keys out).count (ItemKind.include_, "gen\\b.h".toList) = 1 ∧ addItems? out "/proj" threeFiles = none := by
  have hfiles : ofFiles "/proj" threeFiles =
      [⟨.compile, "a.cpp"⟩, ⟨.include_, "Gen\\B.h"⟩, ⟨.include_, "gen\\b.h"⟩] := by decide +kernel
  have htidy : ∀ kind : ItemKind, Tidy kind.element oneFile := by
    intro kind
    cases kind <;> exact tidy_of_check (by decide +kernel)
  have hpaths : ∀ i ∈ ofFiles "/proj" threeFiles, Unmarked i.path ∧ i.path ≠ [] := by
    rw [hfiles]
    simp [Unmarked]
  have hkeys : keys oneFile = [(.compile, "a.cpp".toList)] := by decide +kernel
  have hheader : (⟨.include_, "gen\\b.h"⟩ : ProjectItem) ∈ ofFiles "/proj" threeFiles := by
    rw [hfiles]
    simp
  have hnew : (⟨.include_, "gen\\b.h"⟩ : ProjectItem).key ∉ keys oneFile := by
    rw [hkeys]
    decide
  obtain ⟨hnone, hsome⟩ := addItems?_adds_each_once htidy fun i hi => (hpaths i hi).1
  cases h : addItems? oneFile "/proj" threeFiles with
  | none => exact absurd (hnone.mp h _ hheader) hnew
  | some out =>
      obtain ⟨-, honce, -, hagain⟩ := hsome out h
      exact ⟨htidy, fun i hi => (hpaths i hi).1, out, rfl,
        honce _ hheader (hpaths _ hheader).2 hnew, hagain.mpr fun i hi => (hpaths i hi).2⟩

/-- A project with a line for a file without a path. -/
def pathlessFile : Text :=
  "<Project>\n  <ItemGroup>\n    <ClCompile Include=\"\" />\n  </ItemGroup>\n</Project>\n"

/-- A file that is the project's own directory has no path there. Its line is not found again, and so
the second time adds another one. -/
theorem pathless_file_added_again :
    (∀ kind : ItemKind, Tidy kind.element "<Project>\n</Project>\n") ∧
      (∀ i ∈ ofFiles "/proj/a.cpp" ["/proj/a.cpp".toList], Unmarked i.path) ∧
      addItems? "<Project>\n</Project>\n" "/proj/a.cpp" ["/proj/a.cpp".toList] =
        some pathlessFile ∧
      keys pathlessFile = [] ∧
      addItems? pathlessFile "/proj/a.cpp" ["/proj/a.cpp".toList] ≠ none := by
  have hfiles : ofFiles "/proj/a.cpp" ["/proj/a.cpp".toList] = [⟨.compile, []⟩] := by decide +kernel
  refine ⟨fun kind => ?_, ?_, by decide +kernel, by decide +kernel, fun hnone => ?_⟩
  · cases kind <;> exact tidy_of_check (by decide +kernel)
  · rw [hfiles]
    simp [Unmarked]
  · rw [addItems?_eq_none_iff, hfiles] at hnone
    exact path_ne_nil_of_key_mem (hnone _ List.mem_cons_self) rfl

end Registrar.ProjectFile
