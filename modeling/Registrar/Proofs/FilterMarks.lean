import Registrar.Proofs.Insertions

/-!
# Marks of an element

What decides about the filter of an element are the *marks* behind its opening tag: the filter values
and the closing tags of its kind. Marks are found part by part where texts meet at a tag
(`marks_append_of_fenced`, `marks_append_of_sealed`). An element is calm when its first mark, if there
is one, is the filter for generated files.
-/

namespace Registrar.ProjectFile

open Text

/-! ## Marks -/

/-- The tag that closes an element of a kind. -/
def closingTag (kind : ItemKind) : Text :=
  "</" ++ kind.element ++ ">"

/-- A filter between its tags. -/
def filterTag (value : Text) : Text :=
  "<Filter>" ++ (value ++ "</Filter>")

/-- A mark of an element: the value of a filter, or nothing for its closing tag; the rest. -/
def takeMark? (kind : ItemKind) (t : Text) : Option (Option Text × Text) :=
  match t.after? (closingTag kind) with
  | some rest => some (none, rest)
  | none => (takeFilterValue? t).map fun found => (some found.1, found.2)

/-- The marks of an element in a text. -/
def marks (kind : ItemKind) (t : Text) : List (Option Text) :=
  t.findAll (takeMark? kind)

theorem takeFilterValue?_eq_some_iff {t value rest : Text} :
    takeFilterValue? t = some (value, rest) ↔ '<' ∉ value ∧ t = filterTag value ++ rest := by
  unfold takeFilterValue?
  rw [Option.bind_eq_bind, Option.bind_eq_some_iff]
  constructor
  · rintro ⟨r, hopen, h⟩
    obtain ⟨r', hclose, hpair⟩ := Option.bind_eq_some_iff.mp h
    obtain ⟨rfl, rfl⟩ := Prod.mk.inj (Option.some.inj hpair)
    refine ⟨fun hmem => ?_, ?_⟩
    · simpa using List.all_eq_true.mp List.all_takeWhile _ hmem
    · rw [after?_eq_some_iff] at hopen hclose
      rw [hopen]
      conv => lhs; rw [← List.takeWhile_append_dropWhile (p := (· ≠ '<')) (l := r), hclose]
      unfold filterTag
      simp only [List.append_assoc]
  · rintro ⟨hvalue, rfl⟩
    have hend : ("</Filter>" : Text) ++ rest = '<' :: ("/Filter>" ++ rest) := rfl
    refine ⟨value ++ ("</Filter>" ++ rest), after?_eq_some_iff.mpr ?_, ?_⟩
    · unfold filterTag
      simp only [List.append_assoc]
    · rw [hend, dropWhile_ne_append hvalue, takeWhile_ne_append hvalue, ← hend]
      rw [after?_eq_some_iff.mpr rfl]
      rfl

theorem takesPiece_takeFilterValue? : TakesPiece takeFilterValue? := by
  intro t value rest h
  obtain ⟨hvalue, rfl⟩ := takeFilterValue?_eq_some_iff.mp h
  exact ⟨filterTag value, List.cons_ne_nil _ _, rfl,
    fun s => takeFilterValue?_eq_some_iff.mpr ⟨hvalue, rfl⟩⟩

/-- The text of a mark. -/
def markText (kind : ItemKind) : Option Text → Text
  | none => closingTag kind
  | some value => filterTag value

/-- A mark can be written when its value has no angle bracket. -/
def Writable (mark : Option Text) : Prop :=
  ∀ value, mark = some value → '<' ∉ value

theorem writable_none : Writable none :=
  nofun

theorem closingTag_ne_filterTag {kind : ItemKind} {value a b : Text} :
    closingTag kind ++ a ≠ filterTag value ++ b := by
  intro h
  have hsecond : some '/' = some 'F' := congrArg (·[1]?) h
  exact absurd hsecond (by decide)

theorem takeMark?_eq_some_iff {kind : ItemKind} {t rest : Text} {mark : Option Text} :
    takeMark? kind t = some (mark, rest) ↔ Writable mark ∧ t = markText kind mark ++ rest := by
  unfold takeMark?
  cases hclose : t.after? (closingTag kind) with
  | some rest' =>
      have ht := after?_eq_some_iff.mp hclose
      constructor
      · intro h
        obtain ⟨rfl, rfl⟩ := Prod.mk.inj (Option.some.inj h)
        exact ⟨writable_none, ht⟩
      · rintro ⟨-, heq⟩
        cases mark with
        | none =>
            rw [ht] at heq
            rw [List.append_cancel_left heq]
        | some value => exact absurd (ht.symm.trans heq) closingTag_ne_filterTag
  | none =>
      constructor
      · intro h
        obtain ⟨⟨value, rest'⟩, hvalue, heq⟩ := Option.map_eq_some_iff.mp h
        obtain ⟨rfl, rfl⟩ := Prod.mk.inj heq
        obtain ⟨hangle, ht⟩ := takeFilterValue?_eq_some_iff.mp hvalue
        exact ⟨fun v hv => Option.some.inj hv ▸ hangle, ht⟩
      · rintro ⟨hmark, heq⟩
        cases mark with
        | none =>
            have hfront : t.after? (closingTag kind) = some rest := after?_eq_some_iff.mpr heq
            rw [hfront] at hclose
            cases hclose
        | some value =>
            rw [takeFilterValue?_eq_some_iff.mpr ⟨hmark value rfl, heq⟩]
            rfl

theorem head?_markText (kind : ItemKind) (mark : Option Text) (t : Text) :
    (markText kind mark ++ t).head? = some '<' := by
  cases mark <;> rfl

theorem takesPiece_takeMark? (kind : ItemKind) : TakesPiece (takeMark? kind) := by
  intro t mark rest h
  obtain ⟨hmark, rfl⟩ := takeMark?_eq_some_iff.mp h
  refine ⟨markText kind mark, fun hnil => ?_, rfl,
    fun s => takeMark?_eq_some_iff.mpr ⟨hmark, rfl⟩⟩
  have hhead := head?_markText kind mark []
  rw [hnil] at hhead
  cases hhead

/-! ## Marks across two texts -/

theorem notMem_closingTag (kind : ItemKind) :
    ∃ tag, closingTag kind = '<' :: (tag ++ ['>']) ∧ '<' ∉ tag ∧ '>' ∉ tag ∧ '\n' ∉ tag := by
  cases kind
  · exact ⟨"/ClCompile", rfl, by decide, by decide, by decide⟩
  · exact ⟨"/ClInclude", rfl, by decide, by decide, by decide⟩

/-- A tag that is divided leaves a part without its closing bracket, and one without an opening
bracket. -/
theorem tag_crossing {tag u s : Text} (hangle : '<' ∉ tag) (hclose : '>' ∉ tag) (hu : u ≠ [])
    (hs : s ≠ []) (h : '<' :: (tag ++ ['>']) = u ++ s) :
    ∃ q, u = '<' :: q ∧ '<' ∉ q ∧ '>' ∉ q ∧ '>' ∈ s ∧ '<' ∉ s := by
  obtain ⟨c, u, rfl⟩ := List.exists_cons_of_ne_nil hu
  have hc : '<' = c := (List.cons.inj h).1
  have htail : u ++ s = tag ++ ['>'] := (List.cons.inj h).2.symm
  subst hc
  refine ⟨u, rfl, ?_⟩
  rcases append_eq_append_cases htail with ⟨rest, rfl, hrest⟩ | ⟨x, -, rfl, rfl⟩
  · -- the bracket at the end cannot be in the first part as well
    cases rest with
    | nil =>
        obtain rfl : s = ['>'] := hrest.symm
        simp [hclose, hangle]
    | cons d rest =>
        have hnil := (List.append_eq_nil_iff.mp (List.cons.inj hrest).2.symm).2
        exact absurd hnil hs
  · simp only [List.mem_append, not_or] at hangle hclose
    simp [hangle, hclose]

/-- A mark that is divided is divided in one of its tags, or in the value of a filter. -/
theorem mark_crossing {kind : ItemKind} {mark : Option Text} {u s : Text} (hu : u ≠ []) (hs : s ≠ [])
    (h : markText kind mark = u ++ s) :
    (∃ p q s₁ s₂, u = p ++ '<' :: q ∧ '<' ∉ q ∧ '>' ∉ q ∧ s = s₁ ++ s₂ ∧ '>' ∈ s₁ ∧ '<' ∉ s₁) ∨
      ∃ v₁ v₂, mark = some (v₁ ++ v₂) ∧ u = "<Filter>" ++ v₁ ∧ s = v₂ ++ "</Filter>" := by
  cases mark with
  | none =>
      obtain ⟨tag, htag, hangle, hclose, -⟩ := notMem_closingTag kind
      obtain ⟨q, rfl, hq⟩ := tag_crossing hangle hclose hu hs (htag.symm.trans h)
      exact .inl ⟨[], q, s, [], rfl, hq.1, hq.2.1, by simp, hq.2.2⟩
  | some value =>
      rcases append_eq_append_cases h.symm with ⟨u₁, rfl, hrest⟩ | ⟨s₁, hs₁, hopen, rfl⟩
      · rcases append_eq_append_cases hrest with ⟨v₂, hv, hend⟩ | ⟨w, hw, rfl, hend⟩
        · exact .inr ⟨u₁, v₂, by rw [hv], rfl, hend⟩
        · have htag : '<' :: ("/Filter".toList ++ ['>']) = w ++ s := hend
          obtain ⟨q, rfl, hq⟩ := tag_crossing (by decide) (by decide) hw hs htag
          exact .inl ⟨"<Filter>" ++ value, q, s, [], by simp only [List.append_assoc], hq.1, hq.2.1,
            by simp, hq.2.2⟩
      · have htag : '<' :: ("Filter".toList ++ ['>']) = u ++ s₁ := hopen
        obtain ⟨q, rfl, hq⟩ := tag_crossing (by decide) (by decide) hu hs₁ htag
        exact .inl ⟨[], q, s₁, value ++ "</Filter>", rfl, hq.1, hq.2.1, rfl, hq.2.2⟩

/-- What stands behind the last angle bracket of a sealed text is a whole tag, and not a filter's. -/
theorem Sealed.last_tag {p q : Text} (h : Sealed (p ++ '<' :: q)) (hq : '<' ∉ q) :
    '>' ∈ q ∧ q.head? ≠ some 'F' := by
  obtain ⟨front, tag, blanks, heq, htag, hblanks, hfirst⟩ := h
  have hsuffix : '<' :: q <:+ front ++ '<' :: (tag ++ '>' :: blanks) :=
    heq ▸ List.suffix_append p ('<' :: q)
  have htail : q = tag ++ '>' :: blanks := by
    rcases suffix_append_cases hsuffix with h | ⟨v, hv, -, h⟩
    · rcases List.suffix_cons_iff.mp h with h | h
      · exact (List.cons.inj h).2
      · have hmem := h.mem List.mem_cons_self
        simp [htag, hblanks] at hmem
    · obtain ⟨c, v, rfl⟩ := List.exists_cons_of_ne_nil hv
      have hq' : q = v ++ '<' :: (tag ++ '>' :: blanks) := (List.cons.inj h).2
      exact absurd (hq' ▸ List.mem_append_right v List.mem_cons_self) hq
  subst htail
  refine ⟨by simp, ?_⟩
  cases tag with
  | nil => exact fun h => absurd (Option.some.inj h) (by decide)
  | cons c tag => exact hfirst

variable {kind : ItemKind}

theorem parts_takeMark?_of_crossing {a b : Text}
    (h : ∀ mark u s rest, u <:+ a → u ≠ [] → s ≠ [] → Writable mark → b = s ++ rest →
      markText kind mark ≠ u ++ s) : Parts (takeMark? kind) a b := by
  intro u hu hne hnone
  rw [Option.eq_none_iff_forall_ne_some] at hnone ⊢
  rintro ⟨mark, rest⟩ hsome
  obtain ⟨hmark, heq⟩ := takeMark?_eq_some_iff.mp hsome
  rcases append_eq_append_cases heq with ⟨rest', hu', -⟩ | ⟨s, hs, htext, hb⟩
  · exact hnone (mark, rest') (takeMark?_eq_some_iff.mpr ⟨hmark, hu'⟩)
  · exact h mark u s rest hu hne hs hmark hb htext

theorem parts_takeMark?_of_fenced {b : Text} (hb : Fenced b) (a : Text) :
    Parts (takeMark? kind) a b := by
  refine parts_takeMark?_of_crossing fun mark u s rest _ hu hs hmark heq htext => ?_
  rcases mark_crossing hu hs htext with ⟨-, -, s₁, s₂, -, -, -, rfl, hclose, hangle⟩ | ⟨v₁, v₂, hv, -, rfl⟩
  · rw [List.append_assoc] at heq
    exact hb.ne_append hclose (by decide) hangle (s₂ ++ rest) heq
  · -- the rest of a value is white space, and then its closing tag follows
    have hangle : '<' ∉ v₂ := fun hmem => hmark _ hv (List.mem_append_right v₁ hmem)
    rw [List.append_assoc] at heq
    by_cases hblank : ∀ c ∈ v₂, isBlank c = true
    · rcases hb with rfl | ⟨blanks, r, hblanks, rfl, hnot⟩
      · exact absurd (List.append_eq_nil_iff.mp heq.symm).2 (List.cons_ne_nil _ _)
      · have hhead : ∀ {x : Text} (c : Char), ('<' :: x).head? = some c → isBlank c = false := by
          intro x c hc
          obtain rfl : '<' = c := Option.some.inj hc
          decide
        have heq' : blanks ++ '<' :: r = v₂ ++ '<' :: ("/Filter>" ++ rest) := heq
        obtain ⟨-, htail⟩ :=
          eq_of_append_eq_append_of_class hblanks hblank hhead hhead heq'
        exact hnot ⟨rest, (List.cons.inj htail).2.symm⟩
    · obtain ⟨c, hc⟩ := Classical.not_forall.mp hblank
      obtain ⟨hmem, hsolid⟩ := Classical.not_imp.mp hc
      exact hb.ne_append hmem (Bool.eq_false_iff.mpr hsolid) hangle _ heq

theorem parts_takeMark?_of_sealed {a : Text} (ha : Sealed a) (b : Text) :
    Parts (takeMark? kind) a b := by
  refine parts_takeMark?_of_crossing fun mark u s rest hu hne hs hmark _ htext => ?_
  have hhead : u.head? = some '<' := by
    have hfront := head?_markText kind mark []
    rw [List.append_nil, htext] at hfront
    obtain ⟨c, u, rfl⟩ := List.exists_cons_of_ne_nil hne
    exact hfront
  have hsealed := ha.of_suffix hu hhead
  rcases mark_crossing hne hs htext with ⟨p, q, -, -, rfl, hq, hclose, -⟩ | ⟨v₁, v₂, hv, rfl, -⟩
  · exact hclose (hsealed.last_tag hq).1
  · have hangle : '<' ∉ "Filter>".toList ++ v₁ := by
      intro hmem
      rcases List.mem_append.mp hmem with hmem | hmem
      · exact absurd hmem (by decide)
      · exact hmark _ hv (List.mem_append_left v₂ hmem)
    exact (Sealed.last_tag (p := []) hsealed hangle).2 rfl

theorem marks_append_of_fenced {b : Text} (hb : Fenced b) (a : Text) :
    marks kind (a ++ b) = marks kind a ++ marks kind b :=
  (takesPiece_takeMark? kind).findAll_append (parts_takeMark?_of_fenced hb a)

theorem marks_append_of_sealed {a : Text} (ha : Sealed a) (b : Text) :
    marks kind (a ++ b) = marks kind a ++ marks kind b :=
  (takesPiece_takeMark? kind).findAll_append (parts_takeMark?_of_sealed ha b)

theorem marks_markText {mark : Option Text} (h : Writable mark) (rest : Text) :
    marks kind (markText kind mark ++ rest) = mark :: marks kind rest := by
  refine TakesPiece.findAll_piece (fun hnil => ?_)
    (fun s => takeMark?_eq_some_iff.mpr ⟨h, rfl⟩) rest
  have hhead := head?_markText kind mark []
  rw [hnil] at hhead
  cases hhead

theorem marks_eq_nil_iff {t : Text} :
    marks kind t = [] ↔ ∀ u, u <:+ t → takeMark? kind u = none :=
  (takesPiece_takeMark? kind).findAll_eq_nil_iff

theorem marks_eq_nil_of_notMem {t : Text} (h : '<' ∉ t) : marks kind t = [] := by
  rw [marks_eq_nil_iff]
  intro u hu
  rw [Option.eq_none_iff_forall_ne_some]
  rintro ⟨mark, rest⟩ hsome
  obtain ⟨-, rfl⟩ := takeMark?_eq_some_iff.mp hsome
  exact h (hu.mem (List.mem_of_mem_head? (head?_markText kind mark rest)))

/-- No mark in a text means none in its parts. -/
theorem marks_eq_nil_of_append {a b : Text} (h : marks kind (a ++ b) = []) :
    marks kind a = [] ∧ marks kind b = [] := by
  rw [marks_eq_nil_iff] at h
  refine ⟨marks_eq_nil_iff.mpr fun u hu => ?_,
    marks_eq_nil_iff.mpr fun u hu => h u (hu.trans (List.suffix_append a b))⟩
  rw [Option.eq_none_iff_forall_ne_some]
  rintro ⟨mark, rest⟩ hsome
  have hlong := (takesPiece_takeMark? kind).append hsome b
  rw [h _ (List.suffix_append_self_iff.mpr hu)] at hlong
  cases hlong

theorem fenced_markText (kind : ItemKind) (mark : Option Text) (rest : Text) :
    Fenced (markText kind mark ++ rest) := by
  cases mark with
  | none =>
      obtain ⟨name, hname⟩ := exists_element_eq kind
      refine .inr ⟨[], "/" ++ kind.element ++ ">" ++ rest, isBlank_of_mem_nil, rfl, ?_⟩
      rintro ⟨s, hs⟩
      rw [hname] at hs
      have hsecond : some 'F' = some 'C' := congrArg (·[1]?) hs
      exact absurd hsecond (by decide)
  | some value =>
      refine .inr ⟨[], "Filter>" ++ (value ++ "</Filter>") ++ rest, isBlank_of_mem_nil, rfl, ?_⟩
      rintro ⟨s, hs⟩
      exact absurd (List.cons.inj hs).1 (by decide)

theorem marks_append_closingTag (a b : Text) :
    marks kind (a ++ (closingTag kind ++ b)) = marks kind a ++ none :: marks kind b := by
  have hmarks : marks kind (a ++ (closingTag kind ++ b)) =
      marks kind a ++ marks kind (closingTag kind ++ b) :=
    marks_append_of_fenced (fenced_markText kind none b) a
  have hclosing : marks kind (closingTag kind ++ b) = none :: marks kind b :=
    marks_markText writable_none b
  rw [hmarks, hclosing]

theorem marks_append_filterTag {value : Text} (hvalue : '<' ∉ value) (a b : Text) :
    marks kind (a ++ (filterTag value ++ b)) = marks kind a ++ some value :: marks kind b := by
  have hwrite : Writable (some value) := fun v hv => Option.some.inj hv ▸ hvalue
  have hmarks : marks kind (a ++ (filterTag value ++ b)) =
      marks kind a ++ marks kind (filterTag value ++ b) :=
    marks_append_of_fenced (fenced_markText kind (some value) b) a
  have hfilter : marks kind (filterTag value ++ b) = some value :: marks kind b :=
    marks_markText hwrite b
  rw [hmarks, hfilter]

/-- A closing tag is among the marks exactly when it occurs. -/
theorem none_mem_marks_iff {t : Text} : none ∈ marks kind t ↔ closingTag kind <:+: t := by
  constructor
  · intro h
    have hfirst : (t.findFirst? (takeMark? kind) (·.isNone)) ≠ none := by
      intro hnone
      rw [(takesPiece_takeMark? kind).findFirst?_eq_none_iff] at hnone
      exact absurd (hnone none h) (by decide)
    obtain ⟨o, ho⟩ := Option.ne_none_iff_exists'.mp hfirst
    obtain ⟨rfl, -, hread, hwant, -⟩ := (takesPiece_takeMark? kind).of_findFirst? ho
    obtain ⟨-, hsource⟩ := takeMark?_eq_some_iff.mp (hread [])
    rw [Option.isNone_iff_eq_none.mp hwant, List.append_nil, List.append_nil] at hsource
    exact ⟨o.before, o.rest, by rw [hsource, List.append_assoc]; rfl⟩
  · rintro ⟨a, b, rfl⟩
    rw [List.append_assoc, marks_append_closingTag]
    exact List.mem_append_right _ List.mem_cons_self

end Registrar.ProjectFile
