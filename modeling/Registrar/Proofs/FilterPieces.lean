import Registrar.Proofs.FilterEdits

/-!
# Pieces of a filters file

The pieces that are put into a filters file are whole tags, and all filters in them are the one for
generated files: the value of a filter (`replaces_filterTag`), the line with a filter
(`replaces_filterLine`), an item that is opened up (`replaces_selfClosing`), the declaration of the
filter (`replaces_declaration`) and the lines for new items (`replaces_filteredLines`), bare or in a
group of their own (`Replaces.itemGroup`).
-/

namespace Registrar.ProjectFile

open Text

variable {kind : ItemKind} {nl : Text}

/-! ## Tags without marks -/

/-- A text with one angle bracket, that of an item, has no marks. -/
theorem marks_item {t : Text} (h : '<' ∉ t) : marks kind ('<' :: 'C' :: t) = [] := by
  rw [marks_eq_nil_iff]
  intro u hu
  rw [Option.eq_none_iff_forall_ne_some]
  rintro ⟨mark, rest⟩ hsome
  obtain ⟨-, rfl⟩ := takeMark?_eq_some_iff.mp hsome
  rcases List.suffix_cons_iff.mp hu with heq | hu
  · cases mark with
    | none =>
        have hsecond : some '/' = some 'C' := congrArg (·[1]?) heq
        exact absurd hsecond (by decide)
    | some value =>
        have hsecond : some 'F' = some 'C' := congrArg (·[1]?) heq
        exact absurd hsecond (by decide)
  · have hmem := hu.mem (List.mem_of_mem_head? (head?_markText kind mark rest))
    simp [h] at hmem

theorem calm_of_eq_nil {l : List (Option Text)} (h : l = []) : Calm l := by
  rw [h]
  exact calm_nil

theorem marks_eq_nil_of_fails {t : Text} (h : fails (takeMark? kind) t = true) :
    marks kind t = [] :=
  findAll_eq_nil_of_fails h

/-- Nothing may give way to whole tags that bring no other filter. -/
theorem replaces_nil {x : Text} (hblock : Block x) (hneat : Neat x)
    (hcalm : ∀ kind, Calm (marks kind x)) : Replaces [] x where
  block := hblock
  neat := hneat
  calm := hcalm
  marked := fun _ _ => rfl
  old_whole := .inl rfl
  old_neat := fun _ _ => tidy_of_check rfl
  old_open := fun kind h => absurd (List.infix_nil.mp h) (List.cons_ne_nil _ _)
  old_undeclared := by rw [findAll]

/-! ## Filters -/

theorem filterLine_eq (nl : Text) :
    filterLine nl = "      " ++ (filterTag generatedFilter ++ nl) := by
  unfold filterLine filterTag
  simp only [List.append_assoc]
  rfl

theorem neat_of_check {t : Text} (h : fileElements.all (tidy · t) = true) : Neat t :=
  fun element hmem => tidy_of_check (List.all_eq_true.mp h element hmem)

theorem replaces_filterLine (hnl : IsLineBreak nl) : Replaces [] (filterLine nl) := by
  refine replaces_nil ⟨?_, ?_⟩ ?_ ?_
  · exact ⟨"      ", 'F', "ilter>" ++ generatedFilter ++ "</Filter>" ++ nl,
      List.all_eq_true.mp (by decide), rfl, by decide⟩
  · refine ⟨"      <Filter>" ++ generatedFilter, "/Filter", nl, ?_, by decide, hnl.notMem, by decide⟩
    unfold filterLine
    simp only [List.append_assoc]
    rfl
  · rcases hnl with rfl | rfl
    · exact neat_of_check (by decide)
    · exact neat_of_check (by decide)
  · intro kind
    rw [filterLine_eq]
    exact calm_generated (marks_eq_nil_of_notMem (by decide)) nl

/-- The tags of a filter are the only ones in its text. -/
theorem suffix_filterTag {value u : Text} (hvalue : '<' ∉ value) (hu : u <:+ filterTag value)
    (hhead : u.head? = some '<') : u = filterTag value ∨ u = "</Filter>" := by
  have htext : filterTag value = '<' :: (("Filter>" ++ value) ++ '<' :: "/Filter>") := by
    unfold filterTag
    simp only [List.append_assoc]
    rfl
  rw [htext] at hu
  rcases List.suffix_cons_iff.mp hu with hu | hu
  · exact .inl (htext ▸ hu)
  · obtain ⟨c, u, rfl⟩ := List.exists_cons_of_ne_nil (List.ne_nil_of_mem (List.mem_of_mem_head? hhead))
    obtain rfl : c = '<' := Option.some.inj hhead
    have hfront : '<' ∉ "Filter>".toList ++ value := by
      intro hmem
      rcases List.mem_append.mp hmem with hmem | hmem
      · exact absurd hmem (by decide)
      · exact hvalue hmem
    rw [eq_of_cons_suffix hfront (by decide) hu]
    exact .inr rfl

/-- No element opens in the text of a filter. -/
theorem not_opening_suffix_filterTag {value element gap rest : Text} (hvalue : '<' ∉ value)
    (hmem : element ∈ fileElements) (hgap : Gap gap) :
    ¬ opening element gap ++ rest <:+ filterTag value := by
  intro hsuffix
  have hblank : ∀ {x : Text} {c : Char}, (gap ++ x).head? = some c → isBlank c = true := by
    intro x c hc
    obtain ⟨d, g, rfl⟩ := List.exists_cons_of_ne_nil hgap.1
    exact hgap.2 c (Option.some.inj hc ▸ List.mem_cons_self)
  simp only [fileElements, List.mem_cons, List.not_mem_nil, or_false] at hmem
  rcases suffix_filterTag hvalue hsuffix rfl with heq | heq
  · rcases hmem with rfl | rfl | rfl
    · exact absurd (congrArg (·[1]?) heq : some 'C' = some 'F') (by decide)
    · exact absurd (congrArg (·[1]?) heq : some 'C' = some 'F') (by decide)
    · -- behind the name of an opening there is white space, and not the end of the tag
      have htail : (gap ++ "Include=\"") ++ rest = '>' :: (value ++ "</Filter>") :=
        congrArg (List.drop 7) heq
      rw [List.append_assoc] at htail
      exact absurd (hblank (congrArg List.head? htail)) (by decide)
  · rcases hmem with rfl | rfl | rfl
    · exact absurd (congrArg (·[1]?) heq : some 'C' = some '/') (by decide)
    · exact absurd (congrArg (·[1]?) heq : some 'C' = some '/') (by decide)
    · exact absurd (congrArg (·[1]?) heq : some 'F' = some '/') (by decide)

theorem findAll_filterTag {value element : Text} (hvalue : '<' ∉ value)
    (hmem : element ∈ fileElements) : (filterTag value).findAll (takeElement? element) = [] := by
  refine takesPiece_takeElement?.findAll_eq_nil_iff.mpr fun u hu => ?_
  rw [Option.eq_none_iff_forall_ne_some]
  rintro ⟨path, rest⟩ hsome
  obtain ⟨-, -, gap, hgap, rfl⟩ := takeElement?_eq_some_iff.mp hsome
  exact not_opening_suffix_filterTag hvalue hmem hgap hu

theorem items_filterTag {value : Text} (hvalue : '<' ∉ value) : items (filterTag value) = [] := by
  refine takesPiece_takeItem?.findAll_eq_nil_iff.mpr fun u hu => ?_
  rw [Option.eq_none_iff_forall_ne_some]
  rintro ⟨i, rest⟩ hsome
  obtain ⟨-, -, gap, hgap, rfl⟩ := takeElement?_eq_some_iff.mp (takeItem?_eq_some_iff.mp hsome)
  exact not_opening_suffix_filterTag hvalue (element_mem i.kind) hgap hu

theorem items_filterLine (hnl : IsLineBreak nl) : items (filterLine nl) = [] := by
  rcases hnl with rfl | rfl
  · exact findAll_eq_nil_of_fails (by decide)
  · exact findAll_eq_nil_of_fails (by decide)

theorem neat_filterTag {value : Text} (hvalue : '<' ∉ value) : Neat (filterTag value) :=
  fun _ hmem _ _ hgap hsuffix => absurd hsuffix (not_opening_suffix_filterTag hvalue hmem hgap)

theorem sealed_filterTag (value : Text) : Sealed (filterTag value) := by
  refine ⟨"<Filter>" ++ value, "/Filter", [], ?_, by decide, List.not_mem_nil, by decide⟩
  unfold filterTag
  simp only [List.append_assoc]
  rfl

theorem marks_filterTag {value : Text} (hvalue : '<' ∉ value) (kind : ItemKind) :
    marks kind (filterTag value) = [some value] := by
  have hnil : marks kind [] = [] := marks_eq_nil_of_notMem List.not_mem_nil
  have hmarks : marks kind ([] ++ (filterTag value ++ [])) = marks kind [] ++ some value :: marks kind [] :=
    marks_append_filterTag hvalue [] []
  rwa [List.append_nil, List.nil_append, hnil] at hmarks

theorem replaces_filterTag {value : Text} (hvalue : '<' ∉ value) :
    Replaces (filterTag value) (filterTag generatedFilter) where
  block := ⟨⟨[], 'F', "ilter>" ++ (generatedFilter ++ "</Filter>"), isBlank_of_mem_nil, rfl,
    by decide⟩, sealed_filterTag _⟩
  neat := neat_filterTag (by decide)
  calm := fun kind mark hmark => by
    rw [marks_filterTag (by decide)] at hmark
    exact (Option.some.inj hmark).symm
  marked := fun kind hnil => by
    rw [marks_filterTag (by decide)] at hnil
    cases hnil
  old_whole := .inr (sealed_filterTag value)
  old_neat := neat_filterTag hvalue
  old_open := fun kind hin => by
    rw [← none_mem_marks_iff, marks_filterTag hvalue] at hin
    simp at hin
  old_undeclared := findAll_filterTag hvalue filter_mem

/-! ## Items in the filter -/

section

variable {i : ProjectItem}

/-- The opening tag of an item. -/
def openingTag (i : ProjectItem) (gap attributes : Text) : Text :=
  opening i.kind.element gap ++ (i.path ++ '"' :: (attributes ++ ['>']))

/-- What stands behind the opening tag of an item in the filter. -/
def filteredRest (kind : ItemKind) (nl : Text) : Text :=
  nl ++ (filterLine nl ++ ("    " ++ closingTag kind))

theorem filteredElement_eq (i : ProjectItem) (nl : Text) :
    filteredElement i nl = openingTag i " " [] ++ filteredRest i.kind nl := by
  unfold filteredElement openingTag filteredRest opening closingTag
  simp only [List.append_assoc, List.cons_append, List.nil_append]
  rfl

theorem notMem_openingTag {gap attributes : Text} (hgap : Gap gap) (hpath : Unmarked i.path)
    (hin : '<' ∉ attributes) :
    '<' ∉ i.kind.element ++ (gap ++ "Include=\"") ++ (i.path ++ '"' :: attributes) := by
  have helement : '<' ∉ i.kind.element := fun hmem => absurd (isName_element i.kind _ hmem) (by decide)
  have hblank : '<' ∉ gap := fun hmem => absurd (hgap.2 _ hmem) (by decide)
  simp only [List.mem_append, List.mem_cons, not_or]
  exact ⟨⟨helement, hblank, by decide⟩, hpath.2.1, by decide, hin⟩

theorem sealed_openingTag {gap attributes : Text} (hgap : Gap gap) (hpath : Unmarked i.path)
    (hin : '<' ∉ attributes) : Sealed (openingTag i gap attributes) := by
  obtain ⟨name, hname⟩ := exists_element_eq i.kind
  refine ⟨[], i.kind.element ++ (gap ++ "Include=\"") ++ (i.path ++ '"' :: attributes), [], ?_,
    notMem_openingTag hgap hpath hin, List.not_mem_nil, ?_⟩
  · unfold openingTag opening
    simp only [List.append_assoc, List.cons_append, List.nil_append]
  · rw [hname]
    exact fun h => absurd (Option.some.inj h) (by decide)

theorem marks_openingTag {gap attributes : Text} (hgap : Gap gap) (hpath : Unmarked i.path)
    (hin : '<' ∉ attributes) (kind : ItemKind) : marks kind (openingTag i gap attributes) = [] := by
  obtain ⟨name, hname⟩ := exists_element_eq i.kind
  have hangle := notMem_openingTag hgap hpath hin
  unfold openingTag opening
  rw [hname] at hangle ⊢
  refine marks_item fun hmem => hangle ?_
  simp only [List.cons_append, List.append_assoc, List.mem_append, List.mem_cons] at hmem ⊢
  simpa using hmem

theorem neat_openingTag {gap attributes : Text} (hgap : Gap gap) (hline : '\n' ∉ gap)
    (hpath : Unmarked i.path) (hin : '<' ∉ attributes) : Neat (openingTag i gap attributes) := by
  intro element hmem
  refine tidy_opening (isName_of_mem hmem) (isName_element i.kind) hgap hline hpath ?_
  simp [hin]

theorem neat_filteredRest (hnl : IsLineBreak nl) (kind : ItemKind) : Neat (filteredRest kind nl) := by
  rcases hnl with rfl | rfl <;> cases kind <;> exact neat_of_check (by decide)

/-- Behind the opening tag the first mark is the filter for generated files. -/
theorem filteredRest_append (kind : ItemKind) (nl rest : Text) :
    filteredRest kind nl ++ rest =
      (nl ++ "      ") ++ (filterTag generatedFilter ++ (nl ++ ("    " ++ closingTag kind) ++ rest)) := by
  unfold filteredRest
  rw [filterLine_eq]
  simp only [List.append_assoc]

theorem notMem_blanks (hnl : IsLineBreak nl) : '<' ∉ nl ++ "      ".toList := by
  intro hmem
  rcases List.mem_append.mp hmem with hmem | hmem
  · exact hnl.notMem hmem
  · exact absurd hmem (by decide)

theorem marks_filteredElement (hnl : IsLineBreak nl) (hpath : Unmarked i.path) (kind : ItemKind) :
    (marks kind (filteredElement i nl)).head? = some (some generatedFilter) := by
  have hfront := marks_openingTag gap_space hpath List.not_mem_nil kind
  have hsealed := sealed_openingTag gap_space hpath List.not_mem_nil
  have hrest := filteredRest_append i.kind nl []
  rw [List.append_nil] at hrest
  rw [filteredElement_eq, marks_append_of_sealed hsealed, hfront, hrest,
    marks_append_filterTag (by decide), marks_eq_nil_of_notMem (notMem_blanks hnl)]
  rfl

theorem sealed_closingTag (kind : ItemKind) {tail : Text} (htail : '<' ∉ tail) :
    Sealed (closingTag kind ++ tail) := by
  refine ⟨[], "/" ++ kind.element, tail, ?_, fun hmem => ?_, htail,
    fun h => absurd (Option.some.inj h) (by decide)⟩
  · unfold closingTag
    simp only [List.append_assoc]
    rfl
  · rcases List.mem_append.mp hmem with hmem | hmem
    · exact absurd hmem (by decide)
    · exact absurd (isName_element kind _ hmem) (by decide)

theorem block_filteredElement {blanks tail : Text} (hblanks : ∀ c ∈ blanks, isBlank c = true)
    (htail : '<' ∉ tail) (i : ProjectItem) (nl : Text) :
    Block (blanks ++ (filteredElement i nl ++ tail)) := by
  have hopening : filteredElement i nl ++ tail = opening i.kind.element " " ++
      (i.path ++ '"' :: (['>'] ++ (filteredRest i.kind nl ++ tail))) := by
    rw [filteredElement_eq]
    unfold openingTag
    simp only [List.append_assoc, List.cons_append, List.nil_append]
  have hclosing : filteredElement i nl ++ tail =
      (openingTag i " " [] ++ (nl ++ (filterLine nl ++ "    "))) ++ (closingTag i.kind ++ tail) := by
    rw [filteredElement_eq]
    unfold filteredRest
    simp only [List.append_assoc]
  have hsealed : Sealed (blanks ++ (filteredElement i nl ++ tail)) := by
    rw [hclosing]
    exact ((sealed_closingTag i.kind htail).append_left _).append_left blanks
  rw [hopening] at hsealed ⊢
  exact block_of_opening hblanks hsealed

theorem neat_filteredElement (hnl : IsLineBreak nl) (hpath : Unmarked i.path) :
    Neat (filteredElement i nl) := by
  intro element hmem
  rw [filteredElement_eq]
  exact (neat_openingTag gap_space (by decide) hpath List.not_mem_nil element hmem).append
    (neat_filteredRest hnl i.kind element hmem)
    (uncrossed_of_sealed (isName_of_mem hmem) (sealed_openingTag gap_space hpath List.not_mem_nil) _)

theorem items_openingTag {gap attributes : Text} (hne : i.path ≠ []) (hquote : '"' ∉ i.path)
    (hgap : Gap gap) (hin : '<' ∉ attributes) : items (openingTag i gap attributes) = [i] := by
  have hpiece : ∀ s, takeItem? ((opening i.kind.element gap ++ (i.path ++ ['"'])) ++ s) =
      some (i, s) := by
    intro s
    have hread := takeItem?_opening hne hquote hgap s
    simpa only [List.append_assoc, List.singleton_append] using hread
  have htext : openingTag i gap attributes =
      (opening i.kind.element gap ++ (i.path ++ ['"'])) ++ (attributes ++ ['>']) := by
    unfold openingTag
    simp only [List.append_assoc, List.singleton_append]
  rw [htext]
  show findAll takeItem? _ = _
  rw [TakesPiece.findAll_piece (by simp [opening]) hpiece]
  exact congrArg (i :: ·) (items_eq_nil_of_notMem (by simp [hin]))

theorem items_filteredElement (hnl : IsLineBreak nl) (hne : i.path ≠ [])
    (hpath : Unmarked i.path) : items (filteredElement i nl) = [i] := by
  have hrest : items (filteredRest i.kind nl) = [] := by
    rcases hnl with rfl | rfl <;> cases i.kind <;> exact findAll_eq_nil_of_fails (by decide)
  rw [filteredElement_eq, items_append
      (fun kind => neat_openingTag gap_space (by decide) hpath List.not_mem_nil _ (element_mem kind))
      fun kind => uncrossed_of_sealed (isName_element kind)
        (sealed_openingTag gap_space hpath List.not_mem_nil) _,
    items_openingTag hne hpath.1 gap_space List.not_mem_nil, hrest, List.append_nil]

theorem calm_of_head {l : List (Option Text)} (h : l.head? = some (some generatedFilter)) :
    Calm l := by
  intro mark hmark
  rw [h] at hmark
  exact (Option.some.inj hmark).symm

theorem findAll_takeFilter?_openingTag {gap attributes : Text} (hgap : Gap gap)
    (hpath : Unmarked i.path) (hin : '<' ∉ attributes) :
    (openingTag i gap attributes).findAll takeFilter? = [] := by
  refine takesPiece_takeElement?.findAll_eq_nil_iff.mpr fun u hu => ?_
  rw [Option.eq_none_iff_forall_ne_some]
  rintro ⟨path, rest⟩ hsome
  obtain ⟨-, -, gap', -, rfl⟩ := takeElement?_eq_some_iff.mp hsome
  obtain ⟨name, hname⟩ := exists_element_eq i.kind
  have hangle : '<' ∉ i.kind.element ++ (gap ++ "Include=\"") ++
      (i.path ++ '"' :: (attributes ++ ['>'])) := notMem_openingTag hgap hpath (by simp [hin])
  have heq := eq_of_cons_suffix (a := []) List.not_mem_nil hangle hu
  rw [hname] at heq
  exact absurd (List.cons.inj heq).1 (by decide)

/-- An item that closes itself is opened up. -/
theorem replaces_selfClosing {gap attributes : Text} (hnl : IsLineBreak nl) (hgap : Gap gap)
    (hline : '\n' ∉ gap) (hpath : Unmarked i.path) (hin : '<' ∉ attributes) :
    Replaces (openingTag i gap attributes) (filteredElement i nl) where
  block := by simpa using block_filteredElement isBlank_of_mem_nil List.not_mem_nil i nl
  neat := neat_filteredElement hnl hpath
  calm := fun kind => calm_of_head (marks_filteredElement hnl hpath kind)
  marked := fun kind hnil => by
    have hhead := marks_filteredElement hnl hpath kind
    rw [hnil] at hhead
    cases hhead
  old_whole := .inr (sealed_openingTag hgap hpath hin)
  old_neat := neat_openingTag hgap hline hpath hin
  old_open := fun kind hmem => by
    rw [← none_mem_marks_iff, marks_openingTag hgap hpath hin] at hmem
    cases hmem
  old_undeclared := findAll_takeFilter?_openingTag hgap hpath hin

end

/-! ## Lines for new items -/

/-- The lines for a new item, in the filter. -/
def filteredLine (nl : Text) (i : ProjectItem) : Text :=
  "    " ++ (filteredElement i nl ++ nl)

section

variable {l : List ProjectItem}

theorem filteredLine_append (nl : Text) (i : ProjectItem) (rest : Text) :
    filteredLine nl i ++ rest = "    " ++ (opening i.kind.element " " ++
      (i.path ++ '"' :: ('>' :: (filteredRest i.kind nl ++ (nl ++ rest))))) := by
  unfold filteredLine
  rw [filteredElement_eq]
  unfold openingTag
  simp only [List.append_assoc, List.cons_append, List.nil_append]

theorem block_filteredLine (hnl : IsLineBreak nl) (i : ProjectItem) : Block (filteredLine nl i) :=
  block_filteredElement (List.all_eq_true.mp (by decide)) hnl.notMem i nl

theorem neat_filteredLine (hnl : IsLineBreak nl) {i : ProjectItem} (hpath : Unmarked i.path) :
    Neat (filteredLine nl i) := by
  intro element hmem
  have hname := isName_of_mem hmem
  have hblanks : Neat "    " := neat_of_check (by decide)
  have hend : Neat nl := by
    rcases hnl with rfl | rfl
    · exact neat_of_check (by decide)
    · exact neat_of_check (by decide)
  have hblock : Block (filteredElement i nl) := by
    simpa using block_filteredElement isBlank_of_mem_nil List.not_mem_nil i nl
  exact (hblanks element hmem).append
    ((neat_filteredElement hnl hpath element hmem).append (hend element hmem)
      (uncrossed_of_sealed hname hblock.isSealed nl))
    (uncrossed_of_fenced hname (hblock.fenced_append nl) _)

theorem calm_filteredLine (hnl : IsLineBreak nl) {i : ProjectItem} (hpath : Unmarked i.path)
    (rest : Text) (kind : ItemKind) :
    (marks kind (filteredLine nl i ++ rest)).head? = some (some generatedFilter) := by
  have hblock : Block (filteredElement i nl) := by
    simpa using block_filteredElement isBlank_of_mem_nil List.not_mem_nil i nl
  have htext : filteredLine nl i ++ rest = "    " ++ (filteredElement i nl ++ (nl ++ rest)) := by
    unfold filteredLine
    simp only [List.append_assoc]
  rw [htext, marks_append_of_fenced (hblock.fenced_append (nl ++ rest)),
    marks_append_of_sealed hblock.isSealed, marks_eq_nil_of_notMem (by decide), List.nil_append,
    List.head?_append, marks_filteredElement hnl hpath]
  rfl

theorem replaces_filteredLines (hnl : IsLineBreak nl) (hne : l ≠ [])
    (hpaths : ∀ i ∈ l, Unmarked i.path) : Replaces [] (l.flatMap (filteredLine nl)) := by
  refine replaces_nil (block_flatMap (fun i _ => block_filteredLine hnl i) hne) ?_ fun kind => ?_
  · intro element hmem
    exact tidy_flatMap (isName_of_mem hmem) (fun i _ => block_filteredLine hnl i)
      fun i hi => neat_filteredLine hnl (hpaths i hi) element hmem
  · obtain ⟨i, l, rfl⟩ := List.exists_cons_of_ne_nil hne
    rw [List.flatMap_cons]
    exact calm_of_head (calm_filteredLine hnl (hpaths i List.mem_cons_self) _ kind)

end

/-! ## Groups and the declaration -/

theorem neat_groupStart (hnl : IsLineBreak nl) : Neat ("  <ItemGroup>" ++ nl) := by
  rcases hnl with rfl | rfl
  · exact neat_of_check (by decide)
  · exact neat_of_check (by decide)

theorem neat_groupEnd (hnl : IsLineBreak nl) : Neat ("  </ItemGroup>" ++ nl) := by
  rcases hnl with rfl | rfl
  · exact neat_of_check (by decide)
  · exact neat_of_check (by decide)

theorem marks_group (hnl : IsLineBreak nl) (kind : ItemKind) :
    marks kind ("  <ItemGroup>" ++ nl) = [] ∧ marks kind ("  </ItemGroup>" ++ nl) = [] := by
  rcases hnl with rfl | rfl <;> cases kind <;>
    exact ⟨marks_eq_nil_of_fails (by decide), marks_eq_nil_of_fails (by decide)⟩

/-- What may be put in may be put in as a group. -/
theorem Replaces.itemGroup {lines : Text} (hnl : IsLineBreak nl) (h : Replaces [] lines) :
    Replaces [] (itemGroup nl lines) := by
  refine replaces_nil (block_itemGroup hnl lines) (fun element hmem => ?_) fun kind => ?_
  · have hname := isName_of_mem hmem
    rw [itemGroup_eq]
    exact (neat_groupStart hnl element hmem).append
      ((h.neat element hmem).append (neat_groupEnd hnl element hmem)
        (uncrossed_of_fenced hname (fenced_groupEnd nl) lines))
      (uncrossed_of_sealed hname (sealed_groupStart hnl) _)
  · rw [itemGroup_eq, marks_append_of_sealed (sealed_groupStart hnl),
      marks_append_of_fenced (fenced_groupEnd nl), (marks_group hnl kind).1,
      (marks_group hnl kind).2, List.nil_append, List.append_nil]
    exact h.calm kind

/-- The declaration of the filter for generated files. -/
def declaration (nl : Text) : Text :=
  "    <Filter Include=\"" ++ generatedFilter ++ "\">" ++ nl ++
    "      <UniqueIdentifier>" ++ generatedFilterId ++ "</UniqueIdentifier>" ++ nl ++
    "    </Filter>" ++ nl

theorem replaces_declaration (hnl : IsLineBreak nl) : Replaces [] (declaration nl) := by
  refine replaces_nil ⟨?_, ?_⟩ ?_ fun kind => ?_
  · exact ⟨"    ", 'F', "ilter Include=\"" ++ generatedFilter ++ "\">" ++ nl ++
      "      <UniqueIdentifier>" ++ generatedFilterId ++ "</UniqueIdentifier>" ++ nl ++
      "    </Filter>" ++ nl, List.all_eq_true.mp (by decide), rfl, by decide⟩
  · refine ⟨"    <Filter Include=\"" ++ generatedFilter ++ "\">" ++ nl ++
      "      <UniqueIdentifier>" ++ generatedFilterId ++ "</UniqueIdentifier>" ++ nl ++
      "    ", "/Filter", nl, ?_, by decide, hnl.notMem, by decide⟩
    unfold declaration
    simp only [List.append_assoc]
    rfl
  · rcases hnl with rfl | rfl
    · exact neat_of_check (by decide +kernel)
    · exact neat_of_check (by decide +kernel)
  · refine calm_of_eq_nil ?_
    rcases hnl with rfl | rfl <;> cases kind <;> exact marks_eq_nil_of_fails (by decide +kernel)

end Registrar.ProjectFile
