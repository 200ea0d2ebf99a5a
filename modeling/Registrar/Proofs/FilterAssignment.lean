import Registrar.Proofs.FilterPieces

/-!
# Assigning items to a filter

An item that can be filed is moved to the filter for generated files by an edit of its own element
(`assign?_files`), and one that is there is left alone (`assign?_of_settled`). As an edit keeps what is
known about all other items, the items of a list are moved one after the other (`assignAll_files`).
-/

namespace Registrar.Text

/-- A needle is looked for behind a text that does not hold its first character. -/
theorem cut?_append_of_notMem {c : Char} {r : Text} (h : c ∉ r) (w d : Text) :
    (r ++ d).cut? (c :: w) = (d.cut? (c :: w)).map fun found => (r ++ found.1, found.2) := by
  induction r with
  | nil => simp
  | cons e r ih =>
      have hne : e ≠ c := fun heq => h (heq ▸ List.mem_cons_self)
      rw [List.cons_append, cut?, after?, if_neg hne,
        ih fun hmem => h (List.mem_cons_of_mem e hmem), Option.map_map]
      rfl

end Registrar.Text

namespace Registrar.ProjectFile

open Text

variable {kind : ItemKind} {nl : Text} {i : ProjectItem}

/-! ## Where an item stands -/

/-- The first place where an item is listed. -/
def locate? (i : ProjectItem) (t : Text) : Option (Occurrence ProjectItem) :=
  t.findFirst? takeItem? fun listed => listed.key = i.key

theorem locate?_congr {i j : ProjectItem} {t : Text} (h : i.key = j.key) :
    locate? i t = locate? j t := by
  unfold locate?
  rw [h]

theorem kind_eq_of_key_eq {i j : ProjectItem} (h : i.key = j.key) : i.kind = j.kind :=
  congrArg Prod.fst h

theorem locate?_eq_none_iff {t : Text} : locate? i t = none ↔ i.key ∉ (items t).map ProjectItem.key := by
  unfold locate?
  rw [takesPiece_takeItem?.findFirst?_eq_none_iff]
  constructor
  · intro h hmem
    obtain ⟨j, hj, hkey⟩ := List.mem_map.mp hmem
    exact absurd hkey (of_decide_eq_false (h j hj))
  · intro h j hj
    exact decide_eq_false fun hkey => h (List.mem_map.mpr ⟨j, hj, hkey⟩)

/-- What is known of an item that is listed: its opening, and that it is not listed before. -/
theorem of_locate? {t : Text} {o : Occurrence ProjectItem} (h : locate? i t = some o) :
    o.value.key = i.key ∧ locate? i o.before = none ∧ o.value.path ≠ [] ∧ '"' ∉ o.value.path ∧
      (∃ gap, Gap gap ∧ o.source = opening o.value.kind.element gap ++ (o.value.path ++ ['"'])) ∧
      t = o.before ++ (o.source ++ o.rest) := by
  obtain ⟨ht, -, hread, hwant, hbefore⟩ := takesPiece_takeItem?.of_findFirst? h
  obtain ⟨hne, hquote, gap, hgap, hsource⟩ :=
    takeElement?_eq_some_iff.mp (takeItem?_eq_some_iff.mp (hread []))
  rw [List.append_nil] at hsource
  exact ⟨of_decide_eq_true hwant, hbefore, hne, hquote, ⟨gap, hgap, hsource⟩, ht⟩

/-- In a neat text the opening of a listed item is on one line. -/
theorem line_of_locate? {t gap : Text} {o : Occurrence ProjectItem} (hneat : Neat t)
    (h : locate? i t = some o) (hgap : Gap gap)
    (hsource : o.source = opening o.value.kind.element gap ++ (o.value.path ++ ['"'])) :
    '\n' ∉ gap ∧ Unmarked o.value.path ∧ ∀ kind : ItemKind, Tidy kind.element o.before := by
  obtain ⟨-, -, -, hquote, -, ht⟩ := of_locate? h
  have htext : o.source ++ o.rest =
      opening o.value.kind.element gap ++ (o.value.path ++ '"' :: o.rest) := by
    rw [hsource]
    simp only [List.append_assoc, List.singleton_append]
  rw [htext] at ht
  obtain ⟨hline, path, rest, hpath, heq⟩ := hneat.tidy o.value.kind gap _ hgap
    (ht ▸ List.suffix_append o.before _)
  obtain ⟨hsame, -⟩ := eq_of_append_cons_eq hquote hpath.1 heq
  refine ⟨hline, hsame ▸ hpath, fun kind => ?_⟩
  have hseam : Seam o.before (opening o.value.kind.element gap ++ (o.value.path ++ '"' :: o.rest)) :=
    .inr (fenced_opening _ _ _)
  exact hseam.tidy_left (ht ▸ hneat.tidy kind)

/-- Behind a text that does not list an item its opening is the first. -/
theorem locate?_append {before gap : Text} {j : ProjectItem}
    (htidy : ∀ kind : ItemKind, Tidy kind.element before) (hbefore : locate? i before = none)
    (hkey : j.key = i.key) (hne : j.path ≠ []) (hquote : '"' ∉ j.path) (hgap : Gap gap)
    (rest : Text) :
    ∃ o, locate? i (before ++ (opening j.kind.element gap ++ (j.path ++ '"' :: rest))) = some o ∧
      o.rest = rest := by
  have hfence := fenced_opening j.kind gap (j.path ++ '"' :: rest)
  have hparts : Parts takeItem? before (opening j.kind.element gap ++ (j.path ++ '"' :: rest)) :=
    parts_takeItem? fun kind =>
      parts_takeElement? (htidy kind) (uncrossed_of_fenced (isName_element kind) hfence before)
  have hpiece : ∀ s, takeItem? ((opening j.kind.element gap ++ (j.path ++ ['"'])) ++ s) =
      some (j, s) := by
    intro s
    have hread := takeItem?_opening hne hquote hgap s
    simpa only [List.append_assoc, List.singleton_append] using hread
  have htext : opening j.kind.element gap ++ (j.path ++ '"' :: rest) =
      (opening j.kind.element gap ++ (j.path ++ ['"'])) ++ rest := by
    simp only [List.append_assoc, List.singleton_append]
  unfold locate? at hbefore ⊢
  rw [takesPiece_takeItem?.findFirst?_append_of_none hparts hbefore, htext,
    TakesPiece.findFirst?_piece (by simp [opening]) hpiece, if_pos (decide_eq_true hkey)]
  exact ⟨_, rfl, rfl⟩

/-! ## Edits that are about some items -/

/-- The text is as before, or an edit was made to it that is about items with certain keys only. -/
def Edited (keys : List (ItemKind × Text)) (t out : Text) : Prop :=
  out = t ∨ ∃ a old x b, t = a ++ (old ++ b) ∧ out = a ++ (x ++ b) ∧ Seam a (old ++ b) ∧
    Replaces old x ∧ ∀ j ∈ items old ++ items x, j.key ∈ keys

section

variable {keys : List (ItemKind × Text)} {t out : Text}

theorem Edited.neat (h : Edited keys t out) (hneat : Neat t) : Neat out := by
  rcases h with rfl | ⟨a, old, x, b, rfl, rfl, hseam, hrep, -⟩
  · exact hneat
  · exact hneat.edit hseam hrep

theorem Edited.declared (h : Edited keys t out) (hneat : Neat t) {value : Text}
    (hmem : value ∈ t.findAll takeFilter?) : value ∈ out.findAll takeFilter? := by
  rcases h with rfl | ⟨a, old, x, b, rfl, rfl, hseam, hrep, -⟩
  · exact hmem
  · exact declared_edit hneat hseam hrep hmem

theorem locate?_of_quiet {s : Text} (h : ∀ j ∈ items s, j.key ∈ keys) (hkey : i.key ∉ keys) :
    locate? i s = none := by
  rw [locate?_eq_none_iff]
  intro hmem
  obtain ⟨j, hj, heq⟩ := List.mem_map.mp hmem
  exact hkey (heq ▸ h j hj)

theorem Edited.locate?_eq_none (h : Edited keys t out) (hneat : Neat t) (hkey : i.key ∉ keys)
    (hnone : locate? i t = none) : locate? i out = none := by
  rcases h with rfl | ⟨a, old, x, b, rfl, rfl, hseam, hrep, hquiet⟩
  · exact hnone
  · have hold := locate?_of_quiet (fun j hj => hquiet j (List.mem_append_left _ hj)) hkey
    have hx := locate?_of_quiet (fun j hj => hquiet j (List.mem_append_right _ hj)) hkey
    exact (findFirst?_edit hneat hseam hrep hold hx).1 hnone

/-- An item that the edit is not about is listed as before. -/
theorem Edited.locate?_eq_some (h : Edited keys t out) (hneat : Neat t) (hkey : i.key ∉ keys)
    {o : Occurrence ProjectItem} (hsome : locate? i t = some o) :
    ∃ o', locate? i out = some o' ∧ (Settled kind o.rest → Settled kind o'.rest) ∧
      (Fileable kind o.rest → Fileable kind o'.rest) := by
  rcases h with rfl | ⟨a, old, x, b, rfl, rfl, hseam, hrep, hquiet⟩
  · exact ⟨o, hsome, id, id⟩
  · have hold := locate?_of_quiet (fun j hj => hquiet j (List.mem_append_left _ hj)) hkey
    have hx := locate?_of_quiet (fun j hj => hquiet j (List.mem_append_right _ hj)) hkey
    obtain ⟨o', ho', hrest⟩ := (findFirst?_edit hneat hseam hrep hold hx).2 o hsome
    refine ⟨o', ho', ?_⟩
    rcases hrest with hrest | ⟨r, hseam', hr, hr'⟩
    · rw [hrest]
      exact ⟨id, id⟩
    · rw [hr, hr']
      exact ⟨fun h => h.edit hseam' hrep, fun h => h.edit hseam' hrep⟩

end

/-! ## The filter of one element -/

theorem marks_eq_nil_of_unfiltered {t : Text} (hclosing : ¬ closingTag kind <:+: t)
    (h : t.findAll takeFilterValue? = []) : marks kind t = [] := by
  rw [takesPiece_takeFilterValue?.findAll_eq_nil_iff] at h
  rw [marks_eq_nil_iff]
  intro u hu
  rw [Option.eq_none_iff_forall_ne_some]
  rintro ⟨mark, rest⟩ hsome
  obtain ⟨hmark, heq⟩ := takeMark?_eq_some_iff.mp hsome
  cases mark with
  | none => exact hclosing (List.IsInfix.trans ⟨[], rest, by rw [heq]; rfl⟩ hu.isInfix)
  | some value =>
      have hfilter := takeFilterValue?_eq_some_iff.mpr ⟨hmark value rfl, heq⟩
      rw [h u hu] at hfilter
      cases hfilter

theorem findFirst?_true_eq_none_iff {t : Text} :
    t.findFirst? takeFilterValue? (fun _ => true) = none ↔ t.findAll takeFilterValue? = [] := by
  rw [takesPiece_takeFilterValue?.findFirst?_eq_none_iff, List.eq_nil_iff_forall_not_mem]
  simp

section

variable {attributes children : Text}

theorem unfiltered_children (h : (attributes ++ '>' :: children).findAll takeFilterValue? = []) :
    children.findAll takeFilterValue? = [] :=
  takesPiece_takeFilterValue?.findAll_eq_nil_of_suffix h
    ((List.suffix_cons '>' children).trans (List.suffix_append attributes _))

/-- The first filter of an element stands among its children, behind a text without filters. -/
theorem first_filter (hangle : '<' ∉ attributes) (hclosing : ¬ closingTag kind <:+: children)
    {found : Occurrence Text}
    (h : (attributes ++ '>' :: children).findFirst? takeFilterValue? (fun _ => true) = some found) :
    ∃ front, '<' ∉ found.value ∧ found.before = attributes ++ '>' :: front ∧
      children = front ++ (filterTag found.value ++ found.rest) ∧
      findAll takeFilterValue? front = [] ∧ marks kind front = [] := by
  obtain ⟨ht, -, hread, -, hbefore⟩ := takesPiece_takeFilterValue?.of_findFirst? h
  obtain ⟨hvalue, hsource⟩ := takeFilterValue?_eq_some_iff.mp (hread [])
  rw [List.append_nil, List.append_nil] at hsource
  rw [hsource] at ht
  obtain ⟨front, hfront, rfl⟩ :=
    within_of_fenced hangle (fenced_markText kind (some found.value) found.rest) ht.symm
  rw [findFirst?_true_eq_none_iff, hfront] at hbefore
  have hnone := unfiltered_children hbefore
  refine ⟨front, hvalue, hfront, rfl, hnone, marks_eq_nil_of_unfiltered ?_ hnone⟩
  exact fun hmem => hclosing (hmem.trans (List.prefix_append _ _).isInfix)

/-- The first filter gets the value for generated files. -/
theorem setFilter_of_filter (hangle : '<' ∉ attributes) (hclosing : ¬ closingTag kind <:+: children)
    (h : (attributes ++ '>' :: children).findFirst? takeFilterValue? (fun _ => true) ≠ none)
    (before nl : Text) :
    ∃ front value back, '<' ∉ value ∧ children = front ++ (filterTag value ++ back) ∧
      findAll takeFilterValue? front = [] ∧ marks kind front = [] ∧
      setFilter before (attributes ++ '>' :: children) nl =
        before ++ (attributes ++ '>' :: (front ++ (filterTag generatedFilter ++ back))) := by
  obtain ⟨found, hfirst⟩ := Option.ne_none_iff_exists'.mp h
  obtain ⟨front, hvalue, hfront, hchildren, hnone, hmarks⟩ := first_filter hangle hclosing hfirst
  refine ⟨front, found.value, found.rest, hvalue, hchildren, hnone, hmarks, ?_⟩
  unfold setFilter
  rw [hfirst]
  dsimp only
  rw [hfront]
  unfold filterTag
  simp only [List.append_assoc, List.cons_append]

theorem setFilter_of_none {t : Text} (h : t.findFirst? takeFilterValue? (fun _ => true) = none)
    (before nl : Text) :
    setFilter before t nl = insertBeforeLastLine (before ++ t) (filterLine nl) := by
  unfold setFilter
  rw [h]

theorem marks_children_of_none (hclosing : ¬ closingTag kind <:+: children)
    (h : (attributes ++ '>' :: children).findFirst? takeFilterValue? (fun _ => true) = none) :
    marks kind children = [] := by
  exact marks_eq_nil_of_unfiltered hclosing (unfiltered_children (findFirst?_true_eq_none_iff.mp h))

end

/-! ## One item -/

section

variable {t attributes body : Text} {o : Occurrence ProjectItem}

theorem assign?_eq_none_iff : assign? i nl t = none ↔ locate? i t = none :=
  Option.map_eq_none_iff

/-- What is done with an item depends on what follows its opening tag. -/
theorem assign?_eq (h : locate? i t = some o) (hangle : '<' ∉ attributes)
    (hclose : '>' ∉ attributes) (hrest : o.rest = attributes ++ '>' :: body) :
    assign? i nl t = some (
      if attributes.trimEnd.getLast? = some '/' then o.before ++ filteredElement o.value nl ++ body
      else match body.cut? (closingTag i.kind) with
        | none => t
        | some found =>
          setFilter (o.before ++ o.source) (attributes ++ '>' :: found.1) nl ++ closingTag i.kind ++
            found.2) := by
  have hnot : ¬ ['>'] <:+: attributes := fun hmem => hclose (hmem.mem List.mem_cons_self)
  have hattributes : o.rest.cut? ">" = some (attributes, body) := by
    rw [hrest]
    exact cut?_append_needle List.not_mem_nil hnot body
  obtain ⟨tag, hclosing, -⟩ := notMem_closingTag i.kind
  have hangle' : '<' ∉ attributes ++ ['>'] := by simp [hangle]
  have hchildren : o.rest.cut? (closingTag i.kind) = (body.cut? (closingTag i.kind)).map
      fun found => (attributes ++ '>' :: found.1, found.2) := by
    rw [hclosing, hrest, List.append_cons, cut?_append_of_notMem hangle']
    simp only [List.append_assoc, List.singleton_append]
  have htag : ("</" : Text) ++ i.kind.element ++ ">" = closingTag i.kind := rfl
  unfold locate? at h
  unfold assign?
  rw [h, Option.map_some]
  dsimp only
  rw [hattributes]
  dsimp only
  rw [htag, hchildren]
  split
  · rfl
  · cases body.cut? (closingTag i.kind) with
    | none => rfl
    | some found => rfl

/-- An item in the filter stays as it is. -/
theorem assign?_of_settled (h : locate? i t = some o) (hset : Settled i.kind o.rest) (nl : Text) :
    assign? i nl t = some t := by
  obtain ⟨attributes, body, hin, hrest, hslash, hcalm⟩ := hset
  rw [assign?_eq h hin.1 hin.2.1 hrest, if_neg hslash]
  cases hcut : cut? body (closingTag i.kind) with
  | none => rfl
  | some found =>
      obtain ⟨children, after⟩ := found
      have hclosing : ¬ closingTag i.kind <:+: children :=
        not_infix_of_cut? (List.cons_ne_nil _ _) hcut
      have hbody : body = children ++ (closingTag i.kind ++ after) := eq_append_of_cut? hcut
      rw [hbody, marks_append_closingTag] at hcalm
      dsimp only
      unfold setFilter
      cases hfirst : findFirst? takeFilterValue? (fun _ => true) (attributes ++ '>' :: children) with
      | none =>
          rw [marks_children_of_none hclosing hfirst] at hcalm
          exact absurd (hcalm none rfl) nofun
      | some found =>
          obtain ⟨front, hvalue, hbefore, hchildren, -, hfront⟩ := first_filter hin.1 hclosing hfirst
          have hgenerated : found.value = generatedFilter := by
            have hmarks : marks i.kind children = some found.value :: marks i.kind found.rest := by
              rw [hchildren, marks_append_filterTag hvalue, hfront, List.nil_append]
            rw [hmarks] at hcalm
            exact Option.some.inj (hcalm (some found.value) rfl)
          obtain ⟨-, -, -, -, -, ht⟩ := of_locate? h
          rw [hgenerated] at hchildren
          dsimp only
          rw [hbefore]
          conv => rhs; rw [ht, hrest, hbody, hchildren]
          unfold filterTag
          simp only [List.append_assoc, List.cons_append]

/-- An item that is written with the filter is settled. -/
theorem settled_filteredRest (hnl : IsLineBreak nl) (kind : ItemKind) (rest : Text) :
    Settled kind ('>' :: (filteredRest kind nl ++ rest)) := by
  rw [filteredRest_append]
  exact ⟨[], _, by simp [InTag], rfl, by simp [trimEnd],
    calm_generated (marks_eq_nil_of_notMem (notMem_blanks hnl)) _⟩

/-- What an assignment leads to: an edit of the item's own element, after which it is settled. -/
def Files (i : ProjectItem) (nl t : Text) : Prop :=
  ∃ out, assign? i nl t = some out ∧ Edited [i.key] t out ∧
    ∃ o, locate? i out = some o ∧ Settled i.kind o.rest

/-- An item that closes itself is opened up. -/
theorem files_of_selfClosing (hnl : IsLineBreak nl) (hneat : Neat t) (h : locate? i t = some o)
    (hin : InTag attributes) (hrest : o.rest = attributes ++ '>' :: body)
    (hslash : attributes.trimEnd.getLast? = some '/') : Files i nl t := by
  obtain ⟨hkey, hbefore, hne, hquote, ⟨gap, hgap, hsource⟩, ht⟩ := of_locate? h
  obtain ⟨hline, hpath, htidy⟩ := line_of_locate? hneat h hgap hsource
  have hkind := kind_eq_of_key_eq hkey
  have htag : o.source ++ o.rest = openingTag o.value gap attributes ++ body := by
    rw [hsource, hrest]
    unfold openingTag
    simp only [List.append_assoc, List.cons_append, List.nil_append]
  have hnew : o.before ++ filteredElement o.value nl ++ body = o.before ++
      (opening o.value.kind.element " " ++
        (o.value.path ++ '"' :: ('>' :: (filteredRest o.value.kind nl ++ body)))) := by
    rw [filteredElement_eq]
    unfold openingTag
    simp only [List.append_assoc, List.cons_append, List.nil_append]
  refine ⟨o.before ++ filteredElement o.value nl ++ body, ?_, ?_, ?_⟩
  · rw [assign?_eq h hin.1 hin.2.1 hrest, if_pos hslash]
  · refine .inr ⟨o.before, openingTag o.value gap attributes, filteredElement o.value nl, body,
      by rw [← htag]; exact ht, List.append_assoc _ _ _, .inr ?_,
      replaces_selfClosing hnl hgap hline hpath hin.1, ?_⟩
    · rw [← htag, hsource, List.append_assoc]
      exact fenced_opening _ _ _
    · intro j hj
      rw [items_openingTag hne hquote hgap hin.1, items_filteredElement hnl hne hpath] at hj
      simp only [List.singleton_append, List.mem_cons, List.not_mem_nil, or_false, or_self] at hj
      rw [hj, hkey]
      exact List.mem_cons_self
  · obtain ⟨o', ho', hrest'⟩ := locate?_append htidy hbefore hkey hne hquote gap_space
      ('>' :: (filteredRest o.value.kind nl ++ body))
    rw [hnew]
    refine ⟨o', ho', ?_⟩
    rw [hrest', ← hkind]
    exact settled_filteredRest hnl o.value.kind body

/-- After an edit behind its opening an item is listed where it was. -/
theorem locate?_of_rest (hneat : Neat t) (h : locate? i t = some o) (rest : Text) :
    ∃ o', locate? i (o.before ++ (o.source ++ rest)) = some o' ∧ o'.rest = rest := by
  obtain ⟨hkey, hbefore, hne, hquote, ⟨gap, hgap, hsource⟩, -⟩ := of_locate? h
  obtain ⟨-, -, htidy⟩ := line_of_locate? hneat h hgap hsource
  have hnew := locate?_append htidy hbefore hkey hne hquote hgap rest
  have htext : o.source ++ rest =
      opening o.value.kind.element gap ++ (o.value.path ++ '"' :: rest) := by
    rw [hsource]
    simp only [List.append_assoc, List.singleton_append]
  rwa [htext]

/-- A filter gets the value for generated files. -/
theorem files_of_filter {children after : Text} (hneat : Neat t)
    (h : locate? i t = some o) (hin : InTag attributes)
    (hrest : o.rest = attributes ++ '>' :: body) (hslash : attributes.trimEnd.getLast? ≠ some '/')
    (hcut : body.cut? (closingTag i.kind) = some (children, after))
    (hfirst : (attributes ++ '>' :: children).findFirst? takeFilterValue? (fun _ => true) ≠ none) :
    Files i nl t := by
  have hclosing : ¬ closingTag i.kind <:+: children :=
    not_infix_of_cut? (List.cons_ne_nil _ _) hcut
  obtain ⟨-, -, -, -, -, ht⟩ := of_locate? h
  obtain ⟨front, value, back, hvalue, hchildren, -, hfront, hset⟩ :=
    setFilter_of_filter hin.1 hclosing hfirst (o.before ++ o.source) nl
  have hbody : body = front ++ (filterTag value ++ (back ++ (closingTag i.kind ++ after))) := by
    rw [eq_append_of_cut? hcut, hchildren]
    simp only [List.append_assoc]
  have hnew : setFilter (o.before ++ o.source) (attributes ++ '>' :: children) nl ++
      closingTag i.kind ++ after = o.before ++ (o.source ++ (attributes ++ '>' ::
        (front ++ (filterTag generatedFilter ++ (back ++ (closingTag i.kind ++ after)))))) := by
    rw [hset]
    simp only [List.append_assoc, List.cons_append]
  refine ⟨setFilter (o.before ++ o.source) (attributes ++ '>' :: children) nl ++
    closingTag i.kind ++ after, ?_, ?_, ?_⟩
  · rw [assign?_eq h hin.1 hin.2.1 hrest, if_neg hslash, hcut]
  · rw [hnew]
    refine .inr ⟨o.before ++ (o.source ++ (attributes ++ '>' :: front)), filterTag value,
      filterTag generatedFilter, back ++ (closingTag i.kind ++ after), ?_, ?_,
      .inr (fenced_markText i.kind (some value) _), replaces_filterTag hvalue, ?_⟩
    · conv => lhs; rw [ht, hrest, hbody]
      simp only [List.append_assoc, List.cons_append]
    · simp only [List.append_assoc, List.cons_append]
    · rw [items_filterTag hvalue, items_filterTag (by decide)]
      nofun
  · rw [hnew]
    obtain ⟨o', ho', hrest'⟩ := locate?_of_rest hneat h (attributes ++ '>' ::
      (front ++ (filterTag generatedFilter ++ (back ++ (closingTag i.kind ++ after)))))
    refine ⟨o', ho', ?_⟩
    rw [hrest']
    exact ⟨attributes, _, hin, rfl, hslash, calm_generated hfront _⟩

/-- A line with the filter goes in front of the last line of an element without one. -/
theorem files_of_line {children after : Text} (hnl : IsLineBreak nl) (hneat : Neat t)
    (h : locate? i t = some o) (hin : InTag attributes)
    (hrest : o.rest = attributes ++ '>' :: body) (hslash : attributes.trimEnd.getLast? ≠ some '/')
    (hcut : body.cut? (closingTag i.kind) = some (children, after))
    (hfirst : (attributes ++ '>' :: children).findFirst? takeFilterValue? (fun _ => true) = none)
    (hline : '\n' ∈ children) : Files i nl t := by
  have hclosing : ¬ closingTag i.kind <:+: children :=
    not_infix_of_cut? (List.cons_ne_nil _ _) hcut
  obtain ⟨-, -, -, -, -, ht⟩ := of_locate? h
  -- the last line starts among the children
  obtain ⟨c, b, hchildren, hend, -, hlines⟩ := insertBeforeLastLine_append_of_mem hline
    (o.before ++ (o.source ++ (attributes ++ ['>']))) (filterLine nl)
  have hbreak : (o.before ++ (o.source ++ (attributes ++ '>' :: c))).getLast? = some '\n' := by
    rw [← List.singleton_append (l := c), ← List.append_assoc, ← List.append_assoc,
      ← List.append_assoc, List.getLast?_append, hend]
    rfl
  have hnew : setFilter (o.before ++ o.source) (attributes ++ '>' :: children) nl ++
      closingTag i.kind ++ after = o.before ++ (o.source ++ (attributes ++ '>' ::
        (c ++ (filterLine nl ++ (b ++ (closingTag i.kind ++ after)))))) := by
    have htext : o.before ++ o.source ++ (attributes ++ '>' :: children) =
        (o.before ++ (o.source ++ (attributes ++ ['>']))) ++ children := by
      simp only [List.append_assoc, List.singleton_append]
    rw [setFilter_of_none hfirst, htext, hlines]
    simp only [List.append_assoc, List.cons_append, List.nil_append]
  refine ⟨setFilter (o.before ++ o.source) (attributes ++ '>' :: children) nl ++
    closingTag i.kind ++ after, ?_, ?_, ?_⟩
  · rw [assign?_eq h hin.1 hin.2.1 hrest, if_neg hslash, hcut]
  · rw [hnew]
    refine .inr ⟨o.before ++ (o.source ++ (attributes ++ '>' :: c)), [], filterLine nl,
      b ++ (closingTag i.kind ++ after), ?_, ?_, .inl hbreak, replaces_filterLine hnl, ?_⟩
    · conv => lhs; rw [ht, hrest, eq_append_of_cut? hcut, hchildren]
      simp only [List.append_assoc, List.cons_append, List.nil_append]
    · simp only [List.append_assoc, List.cons_append]
    · rw [items_filterLine hnl, items_eq_nil_of_notMem List.not_mem_nil]
      nofun
  · have hmarks : marks i.kind (c ++ "      ") = [] := by
      have hc : marks i.kind c = [] := by
        have hall := marks_children_of_none hclosing hfirst
        rw [hchildren] at hall
        exact (marks_eq_nil_of_append hall).1
      exact marks_append_front ((replaces_filterLine hnl).block.fenced_append [] ) hc
        (marks_eq_nil_of_notMem (by decide))
    obtain ⟨o', ho', hrest'⟩ := locate?_of_rest hneat h (attributes ++ '>' ::
      (c ++ (filterLine nl ++ (b ++ (closingTag i.kind ++ after)))))
    refine ⟨o', by rw [hnew]; exact ho', ?_⟩
    rw [hrest', filterLine_eq]
    refine ⟨attributes, _, hin, rfl, hslash, ?_⟩
    have hcalm := calm_generated hmarks (nl ++ (b ++ (closingTag i.kind ++ after)))
    simpa only [List.append_assoc] using hcalm

/-- Every item that can be filed is. -/
theorem assign?_files (hnl : IsLineBreak nl) (hneat : Neat t) (h : locate? i t = some o)
    (hfile : Fileable i.kind o.rest) : Files i nl t := by
  obtain ⟨attributes, body, hin, hrest, hstate⟩ := hfile
  by_cases hslash : attributes.trimEnd.getLast? = some '/'
  · exact files_of_selfClosing hnl hneat h hin hrest hslash
  · have hopen := hstate.resolve_left hslash
    by_cases hcalm : Calm (marks i.kind body)
    · have hset : Settled i.kind o.rest := ⟨attributes, body, hin, hrest, hslash, hcalm⟩
      exact ⟨t, assign?_of_settled h hset nl, .inl rfl, o, h, hset⟩
    · obtain ⟨children, after, hcut, hroom⟩ := hopen.resolve_left hcalm
      cases hfirst : findFirst? takeFilterValue? (fun _ => true) (attributes ++ '>' :: children) with
      | some found => exact files_of_filter hneat h hin hrest hslash hcut (by rw [hfirst]; nofun)
      | none =>
          have hclosing : ¬ closingTag i.kind <:+: children :=
            not_infix_of_cut? (List.cons_ne_nil _ _) hcut
          have hline := hroom.resolve_left (not_not_intro (marks_children_of_none hclosing hfirst))
          exact files_of_line hnl hneat h hin hrest hslash hcut hfirst hline

end

end Registrar.ProjectFile
