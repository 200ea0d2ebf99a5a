import Registrar.Proofs.ItemGroups

/-!
# Line breaks of two characters

In a file with breaks of two characters every line feed follows a carriage return (`BreaksPaired`).
The two are apart only where a text is divided between them, so an edit keeps the breaks paired when
what it puts in has paired breaks and both ends of what it takes out are `Undivided`
(`BreaksPaired.edit`). The places of all edits are of that kind: behind a line feed, in front of a
tag, or around whole tags. From one insertion and one assignment the patches follow step by step.
-/

namespace Registrar.ProjectFile

open Text ProjectItem

/-- Every line feed follows a carriage return. -/
def BreaksPaired (t : Text) : Prop :=
  ∀ before after, t = before ++ '\n' :: after → before.getLast? = some '\r'

/-- No carriage return is divided from a line feed where the first text meets the second. -/
def Undivided (a b : Text) : Prop :=
  a.getLast? = some '\r' → b.head? ≠ some '\n'

variable {a b t u x nl lines out : Text} {i : ProjectItem}

theorem undivided_of_last {c : Char} (h : a.getLast? = some c) (hc : c ≠ '\r') (b : Text) :
    Undivided a b :=
  fun hreturn => absurd (Option.some.inj (h.symm.trans hreturn)) hc

theorem undivided_of_head {c : Char} (a : Text) (h : b.head? = some c) (hc : c ≠ '\n') :
    Undivided a b :=
  fun _ hfeed => absurd (Option.some.inj (h.symm.trans hfeed)) hc

namespace BreaksPaired

theorem of_notMem (h : '\n' ∉ t) : BreaksPaired t := by
  intro before after heq
  rw [heq] at h
  exact absurd (List.mem_append_right _ List.mem_cons_self) h

theorem append (ha : BreaksPaired a) (hb : BreaksPaired b) : BreaksPaired (a ++ b) := by
  intro before after heq
  rcases List.append_eq_append_iff.mp heq with ⟨front, rfl, hrest⟩ | ⟨back, rfl, hrest⟩
  · rw [List.getLast?_append, hb front after hrest]
    rfl
  · cases back with
    | nil => cases hb [] after hrest.symm
    | cons c back =>
        obtain ⟨rfl, -⟩ := List.cons.inj hrest
        exact ha before back rfl

theorem left (h : BreaksPaired (a ++ b)) : BreaksPaired a := by
  intro before after heq
  apply h before (after ++ b)
  rw [heq, List.append_assoc, List.cons_append]

theorem right (h : BreaksPaired (a ++ b)) (hab : Undivided a b) : BreaksPaired b := by
  intro before after heq
  have hreturn : (a ++ before).getLast? = some '\r' := by
    apply h (a ++ before) after
    rw [heq, List.append_assoc]
  cases before with
  | nil =>
      rw [List.append_nil] at hreturn
      exact absurd (congrArg List.head? heq) (hab hreturn)
  | cons c before => simpa [List.getLast?_append, List.getLast?_cons] using hreturn

theorem splice (h : BreaksPaired (a ++ b)) (hab : Undivided a b) (hx : BreaksPaired x) :
    BreaksPaired (a ++ (x ++ b)) :=
  h.left.append (hx.append (h.right hab))

/-- A part of a text gives way to another one. -/
theorem edit (h : BreaksPaired (a ++ (u ++ b))) (hfront : Undivided a (u ++ b))
    (hback : Undivided u b) (hx : BreaksPaired x) : BreaksPaired (a ++ (x ++ b)) :=
  h.left.append (hx.append ((h.right hfront).right hback))

theorem flatMap {α : Type} {l : List α} {write : α → Text}
    (h : ∀ i ∈ l, BreaksPaired (write i)) : BreaksPaired (l.flatMap write) := by
  induction l with
  | nil => exact of_notMem List.not_mem_nil
  | cons i l ih =>
      rw [List.forall_mem_cons] at h
      exact h.1.append (ih h.2)

theorem pair : BreaksPaired "\r\n" := by
  intro before after heq
  obtain ⟨-, hrest⟩ | ⟨front, rfl, hrest⟩ := List.cons_eq_append_iff.mp heq
  · exact absurd (List.cons.inj hrest).1 (by decide)
  · obtain ⟨rfl, -⟩ | ⟨back, rfl, hback⟩ := List.cons_eq_append_iff.mp hrest
    · rfl
    · cases back <;> cases hback

/-! ## What is put in -/

theorem element (kind : ItemKind) : BreaksPaired kind.element := by
  apply of_notMem
  cases kind with
  | compile => decide
  | include_ => decide

theorem itemGroup (hnl : BreaksPaired nl) (hlines : BreaksPaired lines) :
    BreaksPaired (itemGroup nl lines) :=
  ((((of_notMem (by decide)).append hnl).append hlines).append (of_notMem (by decide))).append hnl

/-- The opening of an item with its path, behind something without a line feed. -/
theorem path {front : Text} (hfront : '\n' ∉ front) (hpath : BreaksPaired i.path) :
    BreaksPaired (front ++ i.kind.element ++ " Include=\"" ++ i.path) :=
  (((of_notMem hfront).append (element i.kind)).append (of_notMem (by decide))).append hpath

theorem itemLine (hnl : BreaksPaired nl) (hpath : BreaksPaired i.path) :
    BreaksPaired (itemLine nl i) :=
  ((path (by decide) hpath).append (of_notMem (by decide))).append hnl

theorem filterLine (hnl : BreaksPaired nl) : BreaksPaired (filterLine nl) :=
  (of_notMem (by decide)).append hnl

theorem filteredElement (hnl : BreaksPaired nl) (hpath : BreaksPaired i.path) :
    BreaksPaired (filteredElement i nl) := by
  have hopening : BreaksPaired ("<" ++ i.kind.element ++ " Include=\"" ++ i.path ++ "\">" ++ nl) :=
    ((path (by decide) hpath).append (of_notMem (by decide))).append hnl
  exact (((hopening.append hnl.filterLine).append (of_notMem (by decide))).append
    (element i.kind)).append (of_notMem (by decide))

theorem declaration (hnl : BreaksPaired nl) : BreaksPaired (declaration nl) := by
  have hopening : BreaksPaired ("    <Filter Include=\"" ++ generatedFilter ++ "\">" ++ nl) :=
    (of_notMem (by decide)).append hnl
  have hid : BreaksPaired ("    <Filter Include=\"" ++ generatedFilter ++ "\">" ++ nl ++
      "      <UniqueIdentifier>" ++ generatedFilterId ++ "</UniqueIdentifier>" ++ nl) :=
    (((hopening.append (of_notMem (by decide))).append (of_notMem (by decide))).append
      (of_notMem (by decide))).append hnl
  exact (hid.append (of_notMem (by decide))).append hnl

/-! ## Insertions -/

/-- Lines go in in front of the line on which a tag stands. -/
theorem insertBeforeLastLine {before rest : Text} (h : BreaksPaired (before ++ rest))
    (hrest : rest.head? = some '<') (hlines : BreaksPaired lines) :
    BreaksPaired (insertBeforeLastLine before lines ++ rest) := by
  obtain ⟨a, b, rfl, hinsert, -, hend⟩ := insertBeforeLastLine_eq before lines
  have hplace : Undivided a (b ++ rest) := by
    rcases hend with hline | ⟨rfl, -⟩
    · exact undivided_of_last hline (by decide) _
    · exact undivided_of_head a hrest (by decide)
  rw [hinsert, List.append_assoc, List.append_assoc]
  rw [List.append_assoc] at h
  exact h.splice hplace hlines

theorem insert {probe : Text → Option Text}
    (hprobe : TakesPiece fun t => (probe t).map fun rest => ((), rest)) (h : BreaksPaired t)
    (hnl : BreaksPaired nl) (hlines : BreaksPaired lines) :
    BreaksPaired (insert probe lines nl t) := by
  rcases insert_cases hprobe lines nl t with
    ⟨before, closer, after, x, hcloser, hx, rfl, hinsert⟩ | hinsert
  · have hclose : (closer ++ after).head? = some '<' := by
      simp only [closers, List.mem_cons, List.not_mem_nil, or_false] at hcloser
      rcases hcloser with rfl | rfl
      · rfl
      · rfl
    have hnew : BreaksPaired x := by
      rcases hx with rfl | rfl
      · exact hlines
      · exact hnl.itemGroup hlines
    rw [hinsert]
    exact h.insertBeforeLastLine hclose hnew
  · rw [hinsert]
    exact h.append (hnl.itemGroup hlines)

theorem putKind {write : ProjectItem → Text} {l : List ProjectItem} (h : BreaksPaired t)
    (hnl : BreaksPaired nl) (hwrite : ∀ i ∈ l, BreaksPaired (write i)) (kind : ItemKind) :
    BreaksPaired (putKind write l nl t kind) := by
  unfold ProjectFile.putKind
  split
  · exact h
  · apply h.insert takesPiece_takeOpening? hnl
    exact flatMap fun i hi => hwrite i (List.mem_filter.mp hi).1

theorem insertItems {write : ProjectItem → Text} {l : List ProjectItem} (h : BreaksPaired t)
    (hnl : BreaksPaired nl) (hwrite : ∀ i ∈ l, BreaksPaired (write i)) :
    BreaksPaired (insertItems write l nl t) := by
  rw [insertItems_eq]
  exact (h.putKind hnl hwrite .compile).putKind hnl hwrite .include_

theorem declareFilter (h : BreaksPaired t) (hnl : BreaksPaired nl) :
    BreaksPaired (declareFilter nl t) := by
  unfold ProjectFile.declareFilter
  split
  · exact h
  · exact h.insert takesPiece_takeFilter? hnl hnl.declaration

/-! ## Assignments -/

theorem setFilter {before children rest : Text} (h : BreaksPaired (before ++ children ++ rest))
    (hrest : rest.head? = some '<') (hnl : BreaksPaired nl) :
    BreaksPaired (setFilter before children nl ++ rest) := by
  unfold ProjectFile.setFilter
  cases hfound : children.findFirst? takeFilterValue? fun _ => true with
  | none => exact h.insertBeforeLastLine hrest hnl.filterLine
  | some found =>
      obtain ⟨hchildren, -, hread, -, -⟩ := takesPiece_takeFilterValue?.of_findFirst? hfound
      obtain ⟨-, hsource⟩ := takeFilterValue?_eq_some_iff.mp (hread [])
      rw [List.append_nil, List.append_nil] at hsource
      have hold : before ++ children ++ rest =
          (before ++ found.before) ++ (filterTag found.value ++ (found.rest ++ rest)) := by
        rw [hchildren, hsource]
        simp only [List.append_assoc]
      have hnew : before ++ found.before ++ "<Filter>" ++ generatedFilter ++ "</Filter>" ++
          found.rest ++ rest =
          (before ++ found.before) ++ (filterTag generatedFilter ++ (found.rest ++ rest)) := by
        unfold filterTag
        simp only [List.append_assoc]
      have hlast : (filterTag found.value).getLast? = some '>' := by
        unfold filterTag
        rw [List.getLast?_append, List.getLast?_append]
        rfl
      rw [hold] at h
      dsimp only
      rw [hnew]
      apply h.edit
      · exact undivided_of_head _ rfl (by decide)
      · exact undivided_of_last hlast (by decide) _
      · exact of_notMem (by decide)

/-- The path of an item that is listed stands between quotes. -/
theorem of_locate? {o : Occurrence ProjectItem} (h : BreaksPaired t) (ho : locate? i t = some o) :
    BreaksPaired o.value.path := by
  obtain ⟨-, -, -, -, ⟨gap, -, hsource⟩, ht⟩ := ProjectFile.of_locate? ho
  have hlast : (o.before ++ opening o.value.kind.element gap).getLast? = some '"' := by
    rw [List.getLast?_append, getLast?_opening]
    rfl
  have hparts : t = (o.before ++ opening o.value.kind.element gap) ++
      (o.value.path ++ ('"' :: o.rest)) := by
    rw [ht, hsource]
    simp only [List.append_assoc, List.cons_append, List.nil_append]
  rw [hparts] at h
  exact (h.right (undivided_of_last hlast (by decide) _)).left

theorem assign? (h : BreaksPaired t) (hnl : BreaksPaired nl)
    (hassign : assign? i nl t = some out) : BreaksPaired out := by
  obtain ⟨o, ho, rfl⟩ := Option.map_eq_some_iff.mp hassign
  obtain ⟨-, -, -, -, ⟨gap, -, hsource⟩, ht⟩ := ProjectFile.of_locate? ho
  dsimp only
  split
  · exact h
  · next attributes after hcut =>
    split
    · -- the tag from its `<` to its `>` gives way to an element
      have htag : t = o.before ++ ((o.source ++ (attributes ++ ['>'])) ++ after) := by
        rw [ht, eq_append_of_cut? hcut]
        simp only [List.append_assoc]
        rfl
      have hlast : (o.source ++ (attributes ++ ['>'])).getLast? = some '>' := by
        rw [← List.append_assoc, List.getLast?_concat]
      have hpath := h.of_locate? ho
      rw [htag] at h
      rw [List.append_assoc]
      apply h.edit
      · rw [hsource]
        exact undivided_of_head _ rfl (by decide)
      · exact undivided_of_last hlast (by decide) _
      · exact hnl.filteredElement hpath
    · split
      · exact h
      · next children after' hcut' =>
        rw [ht, eq_append_of_cut? hcut'] at h
        rw [List.append_assoc]
        apply setFilter _ rfl hnl
        simpa only [List.append_assoc] using h

theorem assignAll (h : BreaksPaired t) (hnl : BreaksPaired nl) (items : List ProjectItem) :
    BreaksPaired (assignAll nl items t).1 := by
  induction items generalizing t with
  | nil => exact h
  | cons i items ih =>
      rw [ProjectFile.assignAll]
      cases hassign : ProjectFile.assign? i nl t with
      | none => exact ih h
      | some mid => exact ih (h.assign? hnl hassign)

theorem patch {wanted : List ProjectItem} (h : BreaksPaired t) (hnl : BreaksPaired nl)
    (hwanted : ∀ i ∈ wanted, BreaksPaired i.path) : BreaksPaired (patch nl wanted t) := by
  have hsub := assignAll_sublist nl wanted (ProjectFile.declareFilter nl t)
  apply ((h.declareFilter hnl).assignAll hnl wanted).insertItems hnl
  intro i hi
  have helement := hnl.filteredElement (hwanted i (hsub.subset hi))
  exact (of_notMem (by decide)).append (helement.append hnl)

/-- A text with paired breaks uses them for the lines that are put in. -/
theorem lineBreak (h : BreaksPaired t) (hbreak : '\n' ∈ t) : lineBreak t = "\r\n" := by
  obtain ⟨before, after, ht⟩ := List.append_of_mem hbreak
  obtain ⟨front, hfront⟩ := List.getLast?_eq_some_iff.mp (h before after ht)
  have hmem : ("\r\n" : Text) <:+: t := ⟨front, after, by rw [ht, hfront]; simp⟩
  apply if_pos
  by_cases hoccurs : occursIn "\r\n" t = true
  · exact hoccurs
  · rw [Bool.not_eq_true, occursIn_eq_false_iff] at hoccurs
    exact absurd hmem (cut?_eq_none_iff.mp hoccurs)

end BreaksPaired

/-! ## Patches -/

theorem breaksPaired_path {projectDir : Path} {files : List Path}
    (h : ∀ file ∈ files, '\n' ∉ (file.relativeTo? projectDir).getD file)
    (hi : i ∈ ofFiles projectDir files) : BreaksPaired i.path := by
  obtain ⟨file, hfile, hitem⟩ := List.mem_filterMap.mp hi
  obtain ⟨kind, -, rfl⟩ := Option.map_eq_some_iff.mp hitem
  apply BreaksPaired.of_notMem
  intro hmem
  obtain ⟨c, hc, hfeed⟩ := List.mem_map.mp hmem
  by_cases hslash : c = '/'
  · rw [if_pos hslash] at hfeed
    exact absurd hfeed (by decide)
  · rw [if_neg hslash] at hfeed
    exact h file hfile (hfeed ▸ hc)

/-- **Patching keeps the line breaks of a file paired.** -/
theorem patches_keep_breaks {projectDir : Path} {files : List Path} (hbreak : '\n' ∈ t)
    (hpaired : BreaksPaired t)
    (hfiles : ∀ file ∈ files, '\n' ∉ (file.relativeTo? projectDir).getD file) :
    (∀ out, addItems? t projectDir files = some out → BreaksPaired out) ∧
      ∀ out, addFilters? t projectDir files = some out → BreaksPaired out := by
  have hnl : BreaksPaired (lineBreak t) := by
    rw [hpaired.lineBreak hbreak]
    exact .pair
  have hpath : ∀ seen, ∀ i ∈ unseen seen (ofFiles projectDir files), BreaksPaired i.path :=
    fun seen i hi => breaksPaired_path hfiles (of_mem_unseen hi).1
  constructor
  · intro out hout
    rw [eq_of_addItems? hout]
    exact hpaired.insertItems hnl fun i hi => hnl.itemLine (hpath _ i hi)
  · intro out hout
    rw [addFilters?_eq] at hout
    split at hout
    · cases hout
    · obtain rfl := Option.some.inj hout
      exact hpaired.patch hnl (hpath [])

/-- The text with a carriage return in front of each line feed. -/
def withReturns (t : Text) : Text :=
  t.flatMap fun c => if c = '\n' then "\r\n" else [c]

theorem breaksPaired_withReturns (t : Text) : BreaksPaired (withReturns t) := by
  apply BreaksPaired.flatMap
  intro c _
  by_cases hc : c = '\n'
  · rw [if_pos hc]
    exact .pair
  · rw [if_neg hc]
    exact .of_notMem (mt List.mem_singleton.mp (Ne.symm hc))

theorem patches_keep_breaks_mixed :
    '\n' ∈ withReturns mixedFilters ∧ BreaksPaired (withReturns mixedFilters) ∧
      (∀ file ∈ mixedFiles, '\n' ∉ (Path.relativeTo? file "/proj").getD file) ∧
      (∃ out, addItems? (withReturns mixedFilters) "/proj" mixedFiles = some out ∧
        BreaksPaired out) ∧
      ∃ out, addFilters? (withReturns mixedFilters) "/proj" mixedFiles = some out ∧
        BreaksPaired out := by
  have hpaired := breaksPaired_withReturns mixedFilters
  have hfiles : ∀ file ∈ mixedFiles, '\n' ∉ (Path.relativeTo? file "/proj").getD file := by
    decide +kernel
  -- at once, as each part reads the same text
  obtain ⟨hbreak, hitems, hfilters⟩ : '\n' ∈ withReturns mixedFilters ∧
      addItems? (withReturns mixedFilters) "/proj" mixedFiles ≠ none ∧
      addFilters? (withReturns mixedFilters) "/proj" mixedFiles ≠ none := by
    decide +kernel
  obtain ⟨out, hout⟩ := Option.ne_none_iff_exists'.mp hitems
  obtain ⟨out', hout'⟩ := Option.ne_none_iff_exists'.mp hfilters
  have hkept := patches_keep_breaks hbreak hpaired hfiles
  exact ⟨hbreak, hpaired, hfiles, ⟨out, hout, hkept.1 out hout⟩, out', hout', hkept.2 out' hout'⟩

end Registrar.ProjectFile
