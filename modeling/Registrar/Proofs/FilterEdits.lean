import Registrar.Proofs.FilterMarks

/-!
# Edits of a filters file

Every change to a filters file puts whole tags in the place of whole tags, or of nothing
(`Replaces`), at the start of a line or of a tag. Such an edit keeps the openings in the rest of the
file (`Neat.edit`) and the items that are found there (`findFirst?_edit`), and what can be said about
their filters: an element in the filter for generated files stays in it (`Settled.edit`), and one that
can be put there still can (`Fileable.edit`).
-/

namespace Registrar.ProjectFile

open Text

variable {kind : ItemKind}

/-! ## The filter of an element -/

/-- The first mark, if there is one, is the filter for generated files. -/
def Calm (marks : List (Option Text)) : Prop :=
  ∀ mark, marks.head? = some mark → mark = some generatedFilter

/-- The rest of an opening tag that ends on its line, without its bracket. -/
def InTag (attributes : Text) : Prop :=
  '<' ∉ attributes ∧ '>' ∉ attributes ∧ '\n' ∉ attributes

/-- Behind its path an element goes on without a filter other than the one for generated files. -/
def Settled (kind : ItemKind) (rest : Text) : Prop :=
  ∃ attributes body, InTag attributes ∧ rest = attributes ++ '>' :: body ∧
    attributes.trimEnd.getLast? ≠ some '/' ∧ Calm (marks kind body)

/-- The children of an element have a filter, or more than one line. -/
def Roomy (kind : ItemKind) (body : Text) : Prop :=
  ∃ children after, body.cut? (closingTag kind) = some (children, after) ∧
    (marks kind children ≠ [] ∨ '\n' ∈ children)

/-- Behind its path an element goes on so that its filter can be set: it closes itself, has the right
filter already, or has room for one. -/
def Fileable (kind : ItemKind) (rest : Text) : Prop :=
  ∃ attributes body, InTag attributes ∧ rest = attributes ++ '>' :: body ∧
    (attributes.trimEnd.getLast? = some '/' ∨ Calm (marks kind body) ∨ Roomy kind body)

/-- Does an element go on so that its filter can be set? -/
def fileable (kind : ItemKind) (rest : Text) : Bool :=
  match rest.cut? ">" with
  | none => false
  | some (attributes, body) =>
    !attributes.elem '<' && !attributes.elem '\n' &&
      (attributes.trimEnd.getLast? == some '/' ||
        (marks kind body).head?.all (· == some generatedFilter) ||
        (body.cut? (closingTag kind)).any fun found =>
          !(marks kind found.1).isEmpty || found.1.elem '\n')

theorem fileable_of_check {rest : Text} (h : fileable kind rest = true) : Fileable kind rest := by
  unfold fileable at h
  split at h
  · cases h
  · next attributes body hcut =>
    have hclose : '>' ∉ attributes := by
      have hnot : ¬ ['>'] <:+: attributes := not_infix_of_cut? (List.cons_ne_nil _ _) hcut
      intro hmem
      obtain ⟨x, y, rfl⟩ := List.append_of_mem hmem
      exact hnot ⟨x, y, by simp⟩
    have hrest : rest = attributes ++ '>' :: body := eq_append_of_cut? hcut
    simp only [Bool.and_eq_true, Bool.or_eq_true, Bool.not_eq_true', beq_iff_eq] at h
    obtain ⟨⟨hangle, hline⟩, hstate⟩ := h
    refine ⟨attributes, body, ⟨by simpa using hangle, hclose, by simpa using hline⟩, hrest, ?_⟩
    rcases hstate with (hslash | hcalm) | hroom
    · exact .inl hslash
    · refine .inr (.inl fun mark hmark => ?_)
      rw [hmark] at hcalm
      simpa using hcalm
    · cases hcut' : cut? body (closingTag kind) with
      | none => rw [hcut'] at hroom; cases hroom
      | some found =>
          rw [hcut'] at hroom
          refine .inr (.inr ⟨found.1, found.2, hcut', ?_⟩)
          simpa using hroom

/-! ## Pieces that give way to others -/

/-- The elements of a filters file. -/
def fileElements : List Text :=
  ["ClCompile", "ClInclude", "Filter"]

/-- All elements keep to their lines. -/
def Neat (t : Text) : Prop :=
  ∀ element ∈ fileElements, Tidy element t

theorem isName_of_mem {element : Text} (h : element ∈ fileElements) : IsName element := by
  simp only [fileElements, List.mem_cons, List.not_mem_nil, or_false] at h
  rcases h with rfl | rfl | rfl
  · exact List.all_eq_true.mp (by decide)
  · exact List.all_eq_true.mp (by decide)
  · exact List.all_eq_true.mp (by decide)

theorem element_mem (kind : ItemKind) : kind.element ∈ fileElements := by
  cases kind
  · exact List.mem_cons_self
  · exact List.mem_cons_of_mem _ List.mem_cons_self

theorem filter_mem : ("Filter" : Text) ∈ fileElements :=
  List.mem_cons_of_mem _ (List.mem_cons_of_mem _ List.mem_cons_self)

theorem Neat.tidy {t : Text} (h : Neat t) (kind : ItemKind) : Tidy kind.element t :=
  h _ (element_mem kind)

/-- A piece of whole tags may give way to another one, which brings no filter but the one for
generated files. -/
structure Replaces (old x : Text) : Prop where
  block : Block x
  neat : Neat x
  calm : ∀ kind, Calm (marks kind x)
  /-- Where something is taken out, a filter is put in. -/
  marked : ∀ kind, marks kind x = [] → old = []
  old_whole : old = [] ∨ Sealed old
  old_neat : Neat old
  old_open : ∀ kind, ¬ closingTag kind <:+: old
  old_undeclared : old.findAll takeFilter? = []

theorem Neat.edit {a old x b : Text} (h : Neat (a ++ (old ++ b))) (hseam : Seam a (old ++ b))
    (hrep : Replaces old x) : Neat (a ++ (x ++ b)) := by
  intro element hmem
  have hname := isName_of_mem hmem
  have hb : Tidy element b := (h element hmem).of_suffix
    ((List.suffix_append old b).trans (List.suffix_append a (old ++ b)))
  have hxb : Tidy element (x ++ b) :=
    (hrep.neat element hmem).append hb (uncrossed_of_sealed hname hrep.block.isSealed b)
  exact (hseam.tidy_left (h element hmem)).append hxb
    (uncrossed_of_fenced hname (hrep.block.fenced_append b) a)

/-! ## Openings under an edit -/

theorem parts_takeElement?_old {old x b element : Text} (hrep : Replaces old x)
    (hmem : element ∈ fileElements) : Parts (takeElement? element) old b := by
  rcases hrep.old_whole with rfl | hsealed
  · intro u hu hne _
    exact absurd (List.suffix_nil.mp hu) hne
  · exact parts_takeElement? (hrep.old_neat element hmem)
      (uncrossed_of_sealed (isName_of_mem hmem) hsealed b)

theorem parts_takeElement?_new {old x b element : Text} (hrep : Replaces old x)
    (hmem : element ∈ fileElements) : Parts (takeElement? element) x b :=
  parts_takeElement? (hrep.neat element hmem)
    (uncrossed_of_sealed (isName_of_mem hmem) hrep.block.isSealed b)

/-- A declared filter stays declared. -/
theorem declared_edit {a old x b value : Text} (h : Neat (a ++ (old ++ b)))
    (hseam : Seam a (old ++ b)) (hrep : Replaces old x)
    (hmem : value ∈ (a ++ (old ++ b)).findAll takeFilter?) :
    value ∈ (a ++ (x ++ b)).findAll takeFilter? := by
  have hname := isName_of_mem filter_mem
  have ha : Tidy "Filter" a := hseam.tidy_left (h _ filter_mem)
  have hpiece : TakesPiece takeFilter? := takesPiece_takeElement?
  have hold : Parts takeFilter? old b := parts_takeElement?_old hrep filter_mem
  have hnew : Parts takeFilter? x b := parts_takeElement?_new hrep filter_mem
  have hfront : Parts takeFilter? a (old ++ b) :=
    parts_takeElement? ha (hseam.uncrossed hname (h _ filter_mem))
  have hfront' : Parts takeFilter? a (x ++ b) :=
    parts_takeElement? ha (uncrossed_of_fenced hname (hrep.block.fenced_append b) a)
  rw [hpiece.findAll_append hfront, hpiece.findAll_append hold, hrep.old_undeclared] at hmem
  rw [hpiece.findAll_append hfront', hpiece.findAll_append hnew]
  rcases List.mem_append.mp hmem with hmem | hmem
  · exact List.mem_append_left _ hmem
  · exact List.mem_append_right _ (List.mem_append_right _ hmem)

/-- What follows an item that is found in the first of two texts meets the second as the first
does. -/
theorem Seam.of_found {a d : Text} {want : ProjectItem → Bool} {o : Occurrence ProjectItem}
    (hseam : Seam a d) (h : a.findFirst? takeItem? want = some o) : Seam o.rest d := by
  rcases hseam with hend | hd
  · obtain ⟨ha, -, hread, -, -⟩ := takesPiece_takeItem?.of_findFirst? h
    obtain ⟨-, -, gap, -, hsource⟩ :=
      takeElement?_eq_some_iff.mp (takeItem?_eq_some_iff.mp (hread []))
    have hquote : o.source.getLast? = some '"' := by
      rw [List.append_nil] at hsource
      rw [hsource, ← List.append_assoc, List.getLast?_concat]
    by_cases hnil : o.rest = []
    · rw [ha, hnil, List.append_nil, List.getLast?_append, hquote] at hend
      exact absurd (Option.some.inj hend) (by decide)
    · left
      rw [ha, ← List.append_assoc, List.getLast?_append, List.getLast?_eq_some_getLast hnil] at hend
      rw [List.getLast?_eq_some_getLast hnil]
      exact hend
  · exact .inr hd

/-- An edit that is not about an item leaves it where it is: what follows it is as before, or goes on
to the edit. -/
theorem findFirst?_edit {a old x b : Text} (h : Neat (a ++ (old ++ b)))
    (hseam : Seam a (old ++ b)) (hrep : Replaces old x) {want : ProjectItem → Bool}
    (hold : old.findFirst? takeItem? want = none) (hx : x.findFirst? takeItem? want = none) :
    ((a ++ (old ++ b)).findFirst? takeItem? want = none →
      (a ++ (x ++ b)).findFirst? takeItem? want = none) ∧
    ∀ o, (a ++ (old ++ b)).findFirst? takeItem? want = some o →
      ∃ o', (a ++ (x ++ b)).findFirst? takeItem? want = some o' ∧
        (o'.rest = o.rest ∨ ∃ r, Seam r (old ++ b) ∧ o.rest = r ++ (old ++ b) ∧
          o'.rest = r ++ (x ++ b)) := by
  have ha : ∀ kind : ItemKind, Tidy kind.element a := fun kind => hseam.tidy_left (h.tidy kind)
  have hpiece := takesPiece_takeItem?
  have hfront : Parts takeItem? a (old ++ b) := parts_takeItem? fun kind =>
    parts_takeElement? (ha kind) (hseam.uncrossed (isName_element kind) (h.tidy kind))
  have hfront' : Parts takeItem? a (x ++ b) := parts_takeItem? fun kind =>
    parts_takeElement? (ha kind)
      (uncrossed_of_fenced (isName_element kind) (hrep.block.fenced_append b) a)
  have hback : Parts takeItem? old b :=
    parts_takeItem? fun kind => parts_takeElement?_old hrep (element_mem kind)
  have hback' : Parts takeItem? x b :=
    parts_takeItem? fun kind => parts_takeElement?_new hrep (element_mem kind)
  cases hfound : a.findFirst? takeItem? want with
  | some o =>
      have htext := hpiece.findFirst?_append_of_some hfront hfound
      have htext' := hpiece.findFirst?_append_of_some hfront' hfound
      rw [htext, htext']
      refine ⟨nofun, fun o' ho' => ⟨_, rfl, .inr ⟨o.rest, hseam.of_found hfound, ?_, rfl⟩⟩⟩
      rw [← Option.some.inj ho']
  | none =>
      rw [hpiece.findFirst?_append_of_none hfront hfound,
        hpiece.findFirst?_append_of_none hback hold,
        hpiece.findFirst?_append_of_none hfront' hfound,
        hpiece.findFirst?_append_of_none hback' hx]
      cases b.findFirst? takeItem? want with
      | none => exact ⟨fun _ => rfl, nofun⟩
      | some o =>
          refine ⟨nofun, fun o' ho' => ⟨_, rfl, .inl ?_⟩⟩
          rw [← Option.some.inj ho']
          rfl

/-! ## Filters under an edit -/

/-- The first mark of a text is a mark behind a text without one. -/
theorem exists_first_mark {t : Text} {mark : Option Text} (h : (marks kind t).head? = some mark) :
    ∃ before rest, t = before ++ (markText kind mark ++ rest) ∧ marks kind before = [] := by
  have hpiece := takesPiece_takeMark? kind
  have hfirst : (t.findFirst? (takeMark? kind) fun _ => true).map Occurrence.value = some mark := by
    rw [hpiece.map_value_findFirst?, ← h]
    unfold marks
    cases t.findAll (takeMark? kind) <;> rfl
  obtain ⟨o, ho, rfl⟩ := Option.map_eq_some_iff.mp hfirst
  obtain ⟨ht, -, hread, -, hbefore⟩ := hpiece.of_findFirst? ho
  obtain ⟨-, hsource⟩ := takeMark?_eq_some_iff.mp (hread [])
  rw [List.append_nil, List.append_nil] at hsource
  refine ⟨o.before, o.rest, by rw [← hsource]; exact ht, ?_⟩
  rw [hpiece.findFirst?_eq_none_iff] at hbefore
  exact List.eq_nil_iff_forall_not_mem.mpr fun m hm => absurd (hbefore m hm) (by decide)

theorem calm_nil : Calm [] :=
  nofun

theorem Calm.append_left {l l' : List (Option Text)} (h : Calm (l ++ l')) : Calm l := by
  intro mark hmark
  refine h mark ?_
  rw [List.head?_append, hmark]
  rfl

theorem calm_generated {before : Text} (h : marks kind before = []) (rest : Text) :
    Calm (marks kind (before ++ (filterTag generatedFilter ++ rest))) := by
  rw [marks_append_filterTag (by decide), h]
  intro mark hmark
  exact (Option.some.inj hmark).symm

/-- A calm text is calm on both sides of a seam: no filter for generated files runs across it. -/
theorem Calm.of_seam {r d : Text} (hseam : Seam r d) (h : Calm (marks kind (r ++ d))) :
    Calm (marks kind r) ∧ (marks kind r = [] → Calm (marks kind d)) := by
  rcases hseam with hend | hd
  · cases hhead : (marks kind (r ++ d)).head? with
    | none =>
        obtain ⟨hr, hd⟩ := marks_eq_nil_of_append (List.head?_eq_none_iff.mp hhead)
        rw [hr, hd]
        exact ⟨calm_nil, fun _ => calm_nil⟩
    | some mark =>
        obtain rfl := h mark hhead
        obtain ⟨before, rest, heq, hbefore⟩ := exists_first_mark hhead
        have heq : r ++ d = (before ++ filterTag generatedFilter) ++ rest := by
          rw [heq, List.append_assoc]
          rfl
        rcases append_eq_append_cases heq with ⟨r', rfl, -⟩ | ⟨s, hs, htext, rfl⟩
        · rw [List.append_assoc]
          refine ⟨calm_generated hbefore r', fun hnil => ?_⟩
          rw [marks_append_filterTag (by decide), hbefore] at hnil
          cases hnil
        · rcases append_eq_append_cases htext with ⟨s', rfl, rfl⟩ | ⟨w, hw, rfl, htag⟩
          · obtain ⟨hr, hs'⟩ := marks_eq_nil_of_append hbefore
            rw [hr, List.append_assoc]
            exact ⟨calm_nil, fun _ => calm_generated hs' rest⟩
          · -- the filter would hold the line break at the seam
            have hline : '\n' ∈ filterTag generatedFilter :=
              htag ▸ List.mem_append_left s (mem_of_getLast?_append hend hw)
            exact absurd hline (by decide)
  · rw [marks_append_of_fenced hd] at h
    exact ⟨h.append_left, fun hnil => by rwa [hnil] at h⟩

theorem Replaces.marks_append {r old x b : Text} (hrep : Replaces old x) :
    marks kind (r ++ (x ++ b)) = marks kind r ++ (marks kind x ++ marks kind b) := by
  rw [marks_append_of_fenced (hrep.block.fenced_append b),
    marks_append_of_sealed hrep.block.isSealed]

/-- A tag does not run across a seam. -/
theorem tag_infix_of_seam {tag r d e : Text} (hangle : '<' ∉ tag) (hclose : '>' ∉ tag)
    (hline : '\n' ∉ tag) (hseam : Seam r (d ++ e)) (h : '<' :: (tag ++ ['>']) <:+: r ++ d) :
    '<' :: (tag ++ ['>']) <:+: r ∨ '<' :: (tag ++ ['>']) <:+: d := by
  obtain ⟨p, q, heq⟩ := h
  rcases append_eq_append_cases heq.symm with ⟨r', rfl, -⟩ | ⟨s, hs, htext, rfl⟩
  · exact .inl ⟨p, r', rfl⟩
  · rcases append_eq_append_cases htext with ⟨s', -, rfl⟩ | ⟨w, hw, rfl, htag⟩
    · exact .inr ⟨s', q, rfl⟩
    · exfalso
      rcases hseam with hend | hd
      · have hmem : '\n' ∈ '<' :: (tag ++ ['>']) :=
          htag ▸ List.mem_append_left s (mem_of_getLast?_append hend hw)
        simp [hline] at hmem
      · obtain ⟨-, -, -, -, hin, hout⟩ := tag_crossing hangle hclose hw hs htag
        exact hd.ne_append hin (by decide) hout (q ++ e) (List.append_assoc _ _ _)

/-- No tag runs on from a sealed text. -/
theorem tag_infix_of_sealed {tag a b : Text} (hangle : '<' ∉ tag) (hclose : '>' ∉ tag)
    (ha : Sealed a) (h : '<' :: (tag ++ ['>']) <:+: a ++ b) :
    '<' :: (tag ++ ['>']) <:+: a ∨ '<' :: (tag ++ ['>']) <:+: b := by
  obtain ⟨p, q, heq⟩ := h
  rcases append_eq_append_cases heq.symm with ⟨r', rfl, -⟩ | ⟨s, hs, htext, rfl⟩
  · exact .inl ⟨p, r', rfl⟩
  · rcases append_eq_append_cases htext with ⟨s', -, rfl⟩ | ⟨w, hw, rfl, htag⟩
    · exact .inr ⟨s', q, rfl⟩
    · exfalso
      obtain ⟨z, rfl, -, hnot, -, -⟩ := tag_crossing hangle hclose hw hs htag
      have hmem := (ha.of_suffix (List.suffix_append p _) rfl).mem
      simp [hnot] at hmem

/-- A closing tag does not run across a seam. -/
theorem closingTag_infix_of_seam {r d e : Text} (hseam : Seam r (d ++ e))
    (h : closingTag kind <:+: r ++ d) : closingTag kind <:+: r ∨ closingTag kind <:+: d := by
  obtain ⟨tag, htag, hangle, hclose, hline⟩ := notMem_closingTag kind
  rw [htag] at h ⊢
  exact tag_infix_of_seam hangle hclose hline hseam h

theorem closingTag_infix_of_sealed {a b : Text} (ha : Sealed a)
    (h : closingTag kind <:+: a ++ b) : closingTag kind <:+: a ∨ closingTag kind <:+: b := by
  obtain ⟨tag, htag, hangle, hclose, -⟩ := notMem_closingTag kind
  rw [htag] at h ⊢
  exact tag_infix_of_sealed hangle hclose ha h

theorem cut?_closingTag {before : Text} (h : ¬ closingTag kind <:+: before) (rest : Text) :
    (before ++ (closingTag kind ++ rest)).cut? (closingTag kind) = some (before, rest) := by
  obtain ⟨tag, hclosing, hangle, -⟩ := notMem_closingTag kind
  rw [hclosing] at h ⊢
  exact cut?_append_needle (by simp [hangle]) h rest

theorem exists_cut?_of_infix {t : Text} (h : closingTag kind <:+: t) :
    ∃ children after, t.cut? (closingTag kind) = some (children, after) := by
  cases hcut : t.cut? (closingTag kind) with
  | none => exact absurd h (cut?_eq_none_iff.mp hcut)
  | some found => exact ⟨found.1, found.2, rfl⟩

theorem infix_of_cut? {t children after : Text}
    (h : t.cut? (closingTag kind) = some (children, after)) : closingTag kind <:+: t :=
  ⟨children, after, (eq_of_cut? h).symm⟩

/-- A cut behind a text without the needle goes through the next text. -/
theorem exists_cut?_of_seam {r d children after : Text} (hseam : Seam r d)
    (hr : ¬ closingTag kind <:+: r)
    (h : (r ++ d).cut? (closingTag kind) = some (children, after)) :
    ∃ c, children = r ++ c ∧ d.cut? (closingTag kind) = some (c, after) := by
  have hd : closingTag kind <:+: d :=
    (closingTag_infix_of_seam (e := []) (by rwa [List.append_nil]) (infix_of_cut? h)).resolve_left hr
  obtain ⟨c, after', hcut⟩ := exists_cut?_of_infix hd
  have hc := not_infix_of_cut? (List.cons_ne_nil _ _) hcut
  have heq : d = c ++ (closingTag kind ++ after') := eq_append_of_cut? hcut
  have hfirst : ¬ closingTag kind <:+: r ++ c := fun hin =>
    (closingTag_infix_of_seam (heq ▸ hseam) hin).elim hr hc
  have hwhole := cut?_closingTag hfirst after'
  rw [List.append_assoc, ← heq, h] at hwhole
  obtain ⟨rfl, rfl⟩ := Prod.mk.inj (Option.some.inj hwhole)
  exact ⟨c, rfl, hcut⟩

/-- What is put in has a filter in front of its first closing tag, if it has any mark. -/
theorem Replaces.marks_eq_nil_of_cut {old x b c after : Text} (hrep : Replaces old x)
    (h : (x ++ b).cut? (closingTag kind) = some (c, after)) (hc : marks kind c = []) :
    marks kind x = [] := by
  have hcut : x ++ b = c ++ (closingTag kind ++ after) := eq_append_of_cut? h
  have hmarks : marks kind (x ++ b) = none :: marks kind after := by
    rw [hcut, marks_append_closingTag, hc, List.nil_append]
  rw [marks_append_of_sealed hrep.block.isSealed] at hmarks
  cases hx : marks kind x with
  | nil => rfl
  | cons mark l =>
      rw [hx] at hmarks
      have hmark := hrep.calm kind mark (by rw [hx]; rfl)
      rw [(List.cons.inj hmarks).1] at hmark
      cases hmark

theorem Replaces.eq_of_cut {old x b c c' after after' : Text} (hrep : Replaces old x)
    (hx : marks kind x = []) (h : b.cut? (closingTag kind) = some (c, after))
    (h' : (x ++ b).cut? (closingTag kind) = some (c', after')) : c' = x ++ c := by
  have hfirst : ¬ closingTag kind <:+: x ++ c := by
    intro hin
    rcases closingTag_infix_of_sealed hrep.block.isSealed hin with hin | hin
    · rw [← none_mem_marks_iff, hx] at hin
      cases hin
    · exact not_infix_of_cut? (List.cons_ne_nil _ _) h hin
  have hwhole := cut?_closingTag hfirst after
  have hb : b = c ++ (closingTag kind ++ after) := eq_append_of_cut? h
  rw [List.append_assoc, ← hb, h'] at hwhole
  exact (Prod.mk.inj (Option.some.inj hwhole)).1

/-- No mark runs from one text into the front of another one that starts with a tag. -/
theorem marks_append_front {r c e : Text} (h : Fenced (c ++ e)) (hr : marks kind r = [])
    (hc : marks kind c = []) : marks kind (r ++ c) = [] := by
  rw [marks_eq_nil_iff] at hr hc ⊢
  intro u hu
  rcases suffix_append_cases hu with hu | ⟨v, hne, hv, rfl⟩
  · exact hc u hu
  · have hlong := parts_takeMark?_of_fenced h r v hv hne (hr v hv)
    rw [Option.eq_none_iff_forall_ne_some]
    intro found hfound
    rw [← List.append_assoc, (takesPiece_takeMark? kind).append hfound e] at hlong
    cases hlong

section

variable {r old x b : Text} (hseam : Seam r (old ++ b)) (hrep : Replaces old x)
include hseam hrep

theorem Calm.edit (h : Calm (marks kind (r ++ (old ++ b)))) :
    Calm (marks kind (r ++ (x ++ b))) := by
  obtain ⟨hr, hrest⟩ := h.of_seam hseam
  rw [hrep.marks_append]
  cases hmr : marks kind r with
  | cons mark l =>
      intro mark' hmark
      exact hr mark' (by rw [hmr]; exact hmark)
  | nil =>
      cases hmx : marks kind x with
      | cons mark l =>
          intro mark' hmark
          exact hrep.calm kind mark' (by rw [hmx]; exact hmark)
      | nil =>
          have hb := hrest hmr
          rw [hrep.marked kind hmx] at hb
          exact hb

/-- Where an element closed before, it closes after the edit. -/
theorem closingTag_infix_edit (h : closingTag kind <:+: r ++ (old ++ b)) :
    closingTag kind <:+: r ++ (x ++ b) := by
  have hb : closingTag kind <:+: b → closingTag kind <:+: r ++ (x ++ b) := fun hin =>
    hin.trans ((List.suffix_append x b).isInfix.trans (List.suffix_append r (x ++ b)).isInfix)
  have hrest : Seam r (old ++ b ++ []) := by rwa [List.append_nil]
  rcases closingTag_infix_of_seam hrest h with h | h
  · exact h.trans (List.prefix_append r (x ++ b)).isInfix
  · rcases hrep.old_whole with rfl | hsealed
    · exact hb h
    · exact hb ((closingTag_infix_of_sealed hsealed h).resolve_left (hrep.old_open kind))

theorem Roomy.edit (h : Roomy kind (r ++ (old ++ b))) : Roomy kind (r ++ (x ++ b)) := by
  obtain ⟨children, after, hcut, hroom⟩ := h
  by_cases hr : closingTag kind <:+: r
  · -- the element closes before the edit
    obtain ⟨c, after', hcut'⟩ := exists_cut?_of_infix hr
    have hsame := cut?_append hcut' (old ++ b)
    rw [hcut] at hsame
    obtain ⟨rfl, -⟩ := Prod.mk.inj (Option.some.inj hsame)
    exact ⟨children, _, cut?_append hcut' (x ++ b), hroom⟩
  · obtain ⟨c, rfl, hc⟩ := exists_cut?_of_seam hseam hr hcut
    obtain ⟨children', after', hcut'⟩ :=
      exists_cut?_of_infix (closingTag_infix_edit hseam hrep (infix_of_cut? hcut))
    obtain ⟨c', rfl, hc'⟩ :=
      exists_cut?_of_seam (.inr (hrep.block.fenced_append b)) hr hcut'
    refine ⟨r ++ c', after', hcut', ?_⟩
    by_cases hmarks : marks kind (r ++ c') = []
    · right
      obtain ⟨hmr, hmc'⟩ := marks_eq_nil_of_append hmarks
      have hx : marks kind x = [] := hrep.marks_eq_nil_of_cut hc' hmc'
      have hold := hrep.marked kind hx
      subst hold
      obtain rfl := hrep.eq_of_cut hx hc hc'
      by_cases hline : '\n' ∈ r
      · exact List.mem_append_left _ hline
      · have hfence : Fenced b := hseam.resolve_left fun hend => hline (List.mem_of_getLast? hend)
        have hmc := (marks_eq_nil_of_append hmc').2
        have hb : b = c ++ (closingTag kind ++ after) := eq_append_of_cut? hc
        rcases hroom with hroom | hroom
        · exact absurd (marks_append_front (hb ▸ hfence) hmr hmc) hroom
        · have hmem := (List.mem_append.mp hroom).resolve_left hline
          exact List.mem_append_right r (List.mem_append_right x hmem)
    · exact .inl hmarks

end

/-! ## Elements under an edit -/

/-- A tag that starts behind the path of an element is behind its opening tag. -/
theorem within_of_fenced {attributes body r d : Text} (hangle : '<' ∉ attributes) (hd : Fenced d)
    (h : r ++ d = attributes ++ '>' :: body) :
    ∃ r', r = attributes ++ '>' :: r' ∧ body = r' ++ d := by
  have h' : r ++ d = (attributes ++ ['>']) ++ body := by rw [h]; simp
  rcases append_eq_append_cases h' with ⟨r', hr, hbody⟩ | ⟨s, hs, htag, hd'⟩
  · exact ⟨r', by rw [hr]; simp, hbody⟩
  · exfalso
    have hclose : '>' ∈ s := mem_of_getLast?_append (u := r) (by rw [← htag]; simp) hs
    have hnot : '<' ∉ s := by
      intro hmem
      have hmem : '<' ∈ attributes ++ ['>'] := htag ▸ List.mem_append_right r hmem
      simp [hangle] at hmem
    exact hd.ne_append hclose (by decide) hnot body hd'

/-- A seam behind the path of an element is behind its opening tag. -/
theorem InTag.within {attributes body r d : Text} (hin : InTag attributes) (hseam : Seam r d)
    (h : r ++ d = attributes ++ '>' :: body) :
    ∃ r', r = attributes ++ '>' :: r' ∧ body = r' ++ d ∧ Seam r' d := by
  rcases hseam with hend | hd
  · have h' : r ++ d = (attributes ++ ['>']) ++ body := by rw [h]; simp
    rcases append_eq_append_cases h' with ⟨r', hr, hbody⟩ | ⟨s, -, htag, -⟩
    · refine ⟨r', by rw [hr]; simp, hbody, .inl ?_⟩
      cases hr' : r' with
      | nil =>
          rw [hr, hr', List.append_nil, List.getLast?_concat] at hend
          exact absurd (Option.some.inj hend) (by decide)
      | cons c z =>
          rw [hr, hr', List.getLast?_append] at hend
          rw [List.getLast?_eq_some_getLast (List.cons_ne_nil c z)] at hend ⊢
          exact hend
    · have hmem : '\n' ∈ attributes ++ ['>'] :=
        htag ▸ List.mem_append_left s (List.mem_of_getLast? hend)
      simp [hin.2.2] at hmem
  · obtain ⟨r', hr, hbody⟩ := within_of_fenced hin.1 hd h
    exact ⟨r', hr, hbody, .inr hd⟩

section

variable {r old x b : Text} (hseam : Seam r (old ++ b)) (hrep : Replaces old x)
include hseam hrep

theorem Settled.edit (h : Settled kind (r ++ (old ++ b))) : Settled kind (r ++ (x ++ b)) := by
  obtain ⟨attributes, body, hin, heq, hslash, hcalm⟩ := h
  obtain ⟨r', rfl, rfl, hseam'⟩ := hin.within hseam heq
  exact ⟨attributes, r' ++ (x ++ b), hin, by simp, hslash, hcalm.edit hseam' hrep⟩

theorem Fileable.edit (h : Fileable kind (r ++ (old ++ b))) : Fileable kind (r ++ (x ++ b)) := by
  obtain ⟨attributes, body, hin, heq, hstate⟩ := h
  obtain ⟨r', rfl, rfl, hseam'⟩ := hin.within hseam heq
  refine ⟨attributes, r' ++ (x ++ b), hin, by simp, ?_⟩
  rcases hstate with hslash | hcalm | hroom
  · exact .inl hslash
  · exact .inr (.inl (hcalm.edit hseam' hrep))
  · exact .inr (.inr (hroom.edit hseam' hrep))

end

end Registrar.ProjectFile
