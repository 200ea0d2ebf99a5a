import Registrar.Proofs.ItemGroups

/-!
# Filters and their items in item groups

A filters file is edited in the middle of its elements before new items are put in. Where no markup holds
an angle bracket or a line break (`Regular`), what is taken for a tag is one, and each of these edits
exchanges whole elements. Where the closing tags of groups and the project are also the first on their
lines (`Arranged`), no edit moves the start of such a line, so the text stays laid out for lines to go in
(`Arranged.assignAll`).
-/

namespace Registrar.Markup

open Text

/-- Markup holds neither an angle bracket nor a line break: behind a bracket that ends something and
behind a line break there is a place between markup, and so there is before a bracket that starts
something. -/
def Regular (t : Text) : Prop :=
  ∀ before c after, t = before ++ c :: after →
    (c = '<' → (pieces? before).isSome) ∧ (c = '>' ∨ c = '\n' → (pieces? (before ++ [c])).isSome)

/-- Is there a place between markup wherever there should be, behind what was read already? -/
def regularFrom (before : Text) : Text → Bool
  | [] => true
  | c :: r =>
    (c != '<' || (pieces? before).isSome) &&
      (c != '>' && c != '\n' || (pieces? (before ++ [c])).isSome) && regularFrom (before ++ [c]) r

theorem regular_of_check {t : Text} (h : regularFrom [] t = true) : Regular t := by
  have hall : ∀ (t before : Text), regularFrom before t = true → ∀ middle c after,
      t = middle ++ c :: after → (c = '<' → (pieces? (before ++ middle)).isSome) ∧
        (c = '>' ∨ c = '\n' → (pieces? (before ++ (middle ++ [c]))).isSome) := by
    intro t
    induction t with
    | nil => intro before _ middle c after heq; simp at heq
    | cons d r ih =>
        intro before h middle c after heq
        simp only [regularFrom, Bool.and_eq_true, Bool.or_eq_true, bne_iff_ne] at h
        cases middle with
        | nil =>
            obtain ⟨rfl, -⟩ := List.cons.inj heq
            rw [List.append_nil, List.nil_append]
            refine ⟨fun hc => h.1.1.resolve_left (not_not_intro hc), fun hc => h.1.2.resolve_left ?_⟩
            rintro ⟨hend, hline⟩
            exact hc.elim hend hline
        | cons e middle =>
            obtain ⟨rfl, hr⟩ := List.cons.inj heq
            have hrest := ih (before ++ [d]) h.2 middle c after hr
            simpa using hrest
  exact hall t [] h

variable {a b u x : Text}

theorem isSome_pieces?_append (ha : (pieces? a).isSome) (b : Text) :
    (pieces? (a ++ b)).isSome = (pieces? b).isSome := by
  obtain ⟨ps, hps⟩ := Option.isSome_iff_exists.mp ha
  rw [pieces?_append hps, Option.isSome_map]

theorem Regular.append (ha : Regular a) (hplace : (pieces? a).isSome) (hb : Regular b) :
    Regular (a ++ b) := by
  intro before c after heq
  rcases append_eq_append_cases heq with ⟨rest, rfl, hrest⟩ | ⟨front, -, rfl, hfront⟩
  · cases rest with
    | nil =>
        have hnew := hb [] c after hrest.symm
        rw [List.append_nil] at hplace
        exact ⟨fun _ => hplace, fun hc => by
          rw [isSome_pieces?_append hplace]
          exact hnew.2 hc⟩
    | cons d rest =>
        obtain ⟨rfl, -⟩ := List.cons.inj hrest
        exact ha before c rest rfl
  · have hnew := hb front c after hfront
    rw [List.append_assoc, isSome_pieces?_append hplace, isSome_pieces?_append hplace]
    exact hnew

theorem Regular.left (h : Regular (a ++ b)) : Regular a := by
  rintro before c after rfl
  exact h before c (after ++ b) (by simp)

theorem Regular.right (h : Regular (a ++ b)) (ha : (pieces? a).isSome) : Regular b := by
  rintro before c after rfl
  have hwhole := h (a ++ before) c after (by simp)
  rwa [List.append_assoc, isSome_pieces?_append ha, isSome_pieces?_append ha] at hwhole

theorem Regular.edit (h : Regular (a ++ (u ++ b))) (ha : (pieces? a).isSome) (hu : (pieces? u).isSome)
    (hx : Regular x) (hplace : (pieces? x).isSome) : Regular (a ++ (x ++ b)) :=
  h.left.append ha (hx.append hplace ((h.right ha).right hu))

/-- In a regular text, what stands between the brackets of a piece holds no further one, and no line
break. -/
theorem Regular.notMem_inside {inside rest : Text} {p : Piece}
    (h : Regular ('<' :: (inside ++ '>' :: rest))) (hspells : Spells inside p) :
    '<' ∉ inside ∧ '>' ∉ inside ∧ '\n' ∉ inside := by
  have hpart : ∀ i₁ c i₂, inside = i₁ ++ c :: i₂ →
      pieces? ('<' :: i₁) = none ∧ pieces? ('<' :: (i₁ ++ [c])) = none := by
    rintro i₁ c i₂ rfl
    exact ⟨pieces?_part hspells (r := c :: (i₂ ++ ['>'])) (by simp) (by simp) (by simp),
      pieces?_part hspells (r := i₂ ++ ['>']) (by simp) (by simp) (by simp)⟩
  have hno : ∀ c, c = '<' ∨ c = '>' ∨ c = '\n' → c ∉ inside := by
    intro c hc hmem
    obtain ⟨i₁, i₂, rfl⟩ := List.append_of_mem hmem
    obtain ⟨hbefore, hbehind⟩ := hpart i₁ c i₂ rfl
    obtain ⟨hstart, hend⟩ := h ('<' :: i₁) c (i₂ ++ '>' :: rest) (by simp)
    rcases hc with hc | hc
    · rw [hbefore] at hstart
      exact absurd (hstart hc) (by simp)
    · rw [List.cons_append, hbehind] at hend
      exact absurd (hend hc) (by simp)
  exact ⟨hno _ (.inl rfl), hno _ (.inr (.inl rfl)), hno _ (.inr (.inr rfl))⟩

/-- A piece without brackets and line breaks is regular. -/
theorem regular_piece {inside : Text} {p : Piece} (hspells : Spells inside p) (hstart : '<' ∉ inside)
    (hend : '>' ∉ inside) (hline : '\n' ∉ inside) : Regular ('<' :: (inside ++ ['>'])) := by
  intro before c after heq
  cases before with
  | nil =>
      obtain ⟨rfl, -⟩ := List.cons.inj heq
      rw [pieces?_nil]
      exact ⟨fun _ => rfl, fun hc => absurd hc (by decide)⟩
  | cons d before =>
      obtain ⟨rfl, hrest⟩ := List.cons.inj heq
      rcases append_eq_append_cases hrest with ⟨tail, rfl, htail⟩ | ⟨tail, hne, rfl, htail⟩
      · cases tail with
        | nil =>
            obtain ⟨rfl, -⟩ := List.cons.inj htail
            rw [List.append_nil] at hspells
            refine ⟨fun hc => absurd hc (by decide), fun _ => ?_⟩
            rw [List.cons_append, pieces?_piece hspells, pieces?_nil]
            rfl
        | cons e tail =>
            obtain ⟨rfl, -⟩ := List.cons.inj htail
            have hmem : c ∈ before ++ c :: tail := List.mem_append_right before List.mem_cons_self
            refine ⟨fun hc => absurd hmem (hc ▸ hstart), fun hc => absurd hmem ?_⟩
            rcases hc with rfl | rfl
            · exact hend
            · exact hline
      · obtain ⟨e, tail, rfl⟩ := List.exists_cons_of_ne_nil hne
        exact absurd htail (by simp)

theorem takeTag?_open_value {value t : Text} {found : Text × Text} (hquote : '"' ∉ value)
    (h : takeTag? (some '"') (value ++ '"' :: t) = some found) : '<' ∉ value := by
  induction value generalizing found with
  | nil => exact List.not_mem_nil
  | cons c value ih =>
      rw [List.mem_cons, not_or] at hquote
      rw [List.cons_append, takeTag?] at h
      split at h
      · cases h
      · next hangle =>
        rw [if_neg (by simp), quoteAfter, if_neg (Ne.symm hquote.1)] at h
        obtain ⟨found', hfound, -⟩ := Option.map_eq_some_iff.mp h
        exact List.not_mem_cons_of_ne_of_not_mem (Ne.symm hangle) (ih hquote.2 hfound)

/-- A value that ends a quote in a tag stands in it as a whole. -/
theorem takeTag?_run_value {run value t tag rest : Text} (hrun : ∀ c ∈ run, c ∉ ("<>\"'" : Text))
    (hquote : '"' ∉ value) (h : takeTag? none (run ++ '"' :: (value ++ '"' :: t)) = some (tag, rest)) :
    ∃ tail, takeTag? none t = some (tail, rest) ∧ tag = run ++ '"' :: (value ++ '"' :: tail) ∧
      '<' ∉ value := by
  have hangle : '<' ∉ value := by
    rw [takeTag?_plain hrun] at h
    obtain ⟨found, hfound, -⟩ := Option.map_eq_some_iff.mp h
    rw [takeTag?, if_neg (by decide), if_neg (by decide), quoteAfter, if_pos (by decide)] at hfound
    obtain ⟨found', hvalue, -⟩ := Option.map_eq_some_iff.mp hfound
    exact takeTag?_open_value hquote hvalue
  rw [takeTag?_plain hrun, takeTag?_quoted hquote hangle, Option.map_map] at h
  obtain ⟨⟨tail, rest'⟩, htail, heq⟩ := Option.map_eq_some_iff.mp h
  obtain ⟨rfl, rfl⟩ := Prod.mk.inj heq
  exact ⟨tail, htail, rfl, hangle⟩

theorem isSome_pieces?_of_openAt? {within : List Text} (h : openAt? a = some within) :
    (pieces? a).isSome := by
  obtain ⟨ps, hps, -⟩ := Option.bind_eq_some_iff.mp h
  rw [hps]
  rfl

/-- Where markup starts, a text that is read to its end has a whole piece. -/
theorem exists_take? {r : Text} (h : (pieces? ('<' :: r)).isSome) :
    ∃ p rest, take? ('<' :: r) = some (p, rest) := by
  cases htake : take? ('<' :: r) with
  | none =>
      rw [pieces?_broken htake] at h
      cases h
  | some found => exact ⟨found.1, found.2, rfl⟩

end Registrar.Markup

namespace Registrar.ProjectFile

open Text Markup ProjectItem

variable {a b u x t out closer nl lines : Text} {within : List Text} {i : ProjectItem}

/-! ## Texts that can be edited -/

/-- What follows is the first tag on its line, and the line is not the first one. -/
def First (before : Text) : Prop :=
  ∃ front line, before = front ++ '\n' :: line ∧ '>' ∉ line

theorem First.append (h : First b) (a : Text) : First (a ++ b) := by
  obtain ⟨front, line, rfl, hline⟩ := h
  exact ⟨a ++ front, line, by simp, hline⟩

theorem First.cases (h : First (a ++ b)) : First b ∨ '\n' ∉ b ∧ '>' ∉ b := by
  obtain ⟨front, line, heq, hline⟩ := h
  rcases append_eq_append_cases heq with ⟨rest, rfl, hrest⟩ | ⟨front', -, -, rfl⟩
  · cases rest with
    | nil => exact .inl ⟨[], line, hrest.symm, hline⟩
    | cons c rest =>
        obtain ⟨-, rfl⟩ := List.cons.inj hrest
        have hb : '>' ∉ b := fun hmem => hline (List.mem_append_right rest hmem)
        by_cases hbreak : '\n' ∈ b
        · obtain ⟨b₁, b₂, rfl⟩ := List.append_of_mem hbreak
          exact .inl ⟨b₁, b₂, rfl, fun hmem => hb (by simp [hmem])⟩
        · exact .inr ⟨hbreak, hb⟩
  · exact .inl ⟨front', line, rfl, hline⟩

theorem First.mem (h : First b) : '\n' ∈ b := by
  obtain ⟨front, line, rfl, -⟩ := h
  simp

theorem first_iff {before : Text} :
    First before ↔ '\n' ∈ before ∧ '>' ∉ (before.splitTail (· ≠ '\n')).2 := by
  constructor
  · intro h
    obtain ⟨a, b, rfl, ha, hb, -⟩ := insertBeforeLastLine_append_of_mem h.mem [] []
    rw [splitTail_line ha hb]
    exact ⟨h.mem, (h.cases.resolve_left fun hrest => hb hrest.mem).2⟩
  · rintro ⟨hmem, hnone⟩
    obtain ⟨a, b, rfl, ha, hb, -⟩ := insertBeforeLastLine_append_of_mem hmem [] []
    rw [splitTail_line ha hb] at hnone
    obtain ⟨a', rfl⟩ := List.getLast?_eq_some_iff.mp ha
    exact ⟨a', b, by simp, hnone⟩

instance (before : Text) : Decidable (First before) :=
  decidable_of_iff _ first_iff.symm

/-- **A text that can be edited** in the middle of its elements and still be laid out. -/
structure Arranged (t : Text) : Prop extends LaidOut t where
  regular : Regular t
  first : AtClosers (fun _ before => First before) t

def arranged (t : Text) : Bool :=
  laidOut t && regularFrom [] t && atClosers (fun _ before => First before) t

theorem arranged_of_check (h : arranged t = true) : Arranged t := by
  rw [arranged, Bool.and_eq_true, Bool.and_eq_true] at h
  exact ⟨laidOut_of_check h.1.1, regular_of_check h.1.2, atClosers_of_check h.2⟩

/-- An edit at a place where no line of a closing tag starts, or of whole lines. -/
theorem Arranged.edit (h : Arranged (a ++ (u ++ b))) (hex : Exchange a u x b within)
    (hregular : Regular x)
    (hinside : ∀ closer ∈ closers, ∀ x₁ x₂, x = x₁ ++ (closer ++ x₂) →
      LineFits closer (a ++ x₁) ∧ First (a ++ x₁))
    (hline : u.getLast? = some '>' ∨
      u = [] ∧ x.getLast? = some '\n' ∧ (a.getLast? = some '\n' ∨ '\n' ∉ a)) :
    Arranged (a ++ (x ++ b)) := by
  have hboth : AtClosers (fun closer before => LineFits closer before ∧ First before)
      (a ++ (x ++ b)) := by
    refine hex.atClosers (fun closer hcloser before after heq hfinal =>
      ⟨h.fits closer hcloser before after heq hfinal, h.first closer hcloser before after heq hfinal⟩)
      hinside ?_
    rintro closer - b₁ b₂ - - ⟨hfits, hfirst⟩
    by_cases hb₁ : '\n' ∈ b₁
    · rw [← List.append_assoc] at hfirst
      have hrest : First b₁ := hfirst.cases.resolve_right fun hnone => hnone.1 hb₁
      exact ⟨hex.lineFits hb₁ hfits, (hrest.append x).append a⟩
    · rcases hline with hend | ⟨rfl, hlast, hstart⟩
      · -- the old part would be on the line of the closing tag, before it
        obtain ⟨u', rfl⟩ := List.getLast?_eq_some_iff.mp hend
        have htext : a ++ (u' ++ ['>'] ++ b₁) = (a ++ u') ++ ('>' :: b₁) := by simp
        rw [htext] at hfirst
        rcases hfirst.cases with hfirst | hnone
        · exact absurd hfirst.mem (by simp [hb₁])
        · exact absurd List.mem_cons_self hnone.2
      · have hclose : '>' ∉ b₁ := (hfirst.cases.resolve_left fun hrest => hb₁ hrest.mem).2
        have hbreak : a.getLast? = some '\n' :=
          hstart.resolve_right fun hnone => by simpa [hnone, hb₁] using hfirst.mem
        obtain ⟨x', rfl⟩ := List.getLast?_eq_some_iff.mp hlast
        exact ⟨lineFits_behind hex.place hex.new hlast hb₁
          (admits_of_lineFits hex.place hbreak hb₁ hfits), a ++ x', b₁, by simp, hclose⟩
  have hold := isSome_pieces?_of_openAt? hex.old
  have hnew := isSome_pieces?_of_openAt? hex.new
  exact {
    wellFormed := hex.wellFormed h.wellFormed
    fits := fun closer hcloser before after heq hfinal =>
      (hboth closer hcloser before after heq hfinal).1
    closes := hex.closes h.closes
    regular := h.regular.edit (isSome_pieces?_of_openAt? hex.place) hold hregular hnew
    first := fun closer hcloser before after heq hfinal =>
      (hboth closer hcloser before after heq hfinal).2 }

/-! ## The declaration -/

theorem regular_itemGroup (hnl : IsLineBreak nl) (hlines : Regular lines)
    (hplace : (pieces? lines).isSome) : Regular (itemGroup nl lines) := by
  have hstart : Regular ("  <ItemGroup>" ++ nl) := by
    rcases hnl with rfl | rfl <;> exact regular_of_check (by decide +kernel)
  have hend : Regular ("  </ItemGroup>" ++ nl) := by
    rcases hnl with rfl | rfl <;> exact regular_of_check (by decide +kernel)
  rw [itemGroup_eq]
  exact hstart.append (isSome_pieces?_of_openAt? (openAt?_groupStart hnl)) (hlines.append hplace hend)

/-- Lines are put in, and the text can still be edited. -/
theorem Arranged.insert {probe : Text → Option Text}
    (hprobe : TakesPiece fun t => (probe t).map fun rest => ((), rest)) (h : Arranged t)
    (hnl : IsLineBreak nl) (hlines : Lines lines) (hregular : Regular lines) :
    Arranged (insert probe lines nl t) := by
  have hplace := isSome_pieces?_of_openAt? hlines.wellFormed
  obtain ⟨a, x, b, within, rfl, hinsert, hopen, hmeets, ⟨rfl, -, hline⟩ | ⟨rfl, rfl, hline⟩⟩ :=
    h.spacious.place hprobe lines nl
  · rw [hinsert]
    refine Arranged.edit (u := []) h
      (exchange_lines hopen hmeets hlines.wellFormed hlines.head hlines.last) hregular ?_
      (.inr ⟨rfl, hlines.last, hline⟩)
    intro closer hcloser x₁ x₂ heq
    exact absurd ⟨x₁, x₂, by rw [List.append_assoc, ← heq]⟩ (hlines.noCloser closer hcloser)
  · have hlast := getLast?_lineBreak hnl ("  <ItemGroup>" ++ nl ++ lines ++ "  </ItemGroup>")
    have hex := exchange_lines hopen hmeets (wellFormed_itemGroup hnl hlines.wellFormed) rfl hlast
    rw [hinsert]
    refine Arranged.edit (u := []) h hex (regular_itemGroup hnl hregular hplace) ?_
      (.inr ⟨rfl, hlast, .inl (h.getLast?_place hline)⟩)
    intro closer hcloser x₁ x₂ heq
    refine ⟨lineFits_itemGroup hnl hlines hopen hcloser heq, ?_⟩
    obtain ⟨-, rfl⟩ := closer_itemGroup hnl hlines hcloser heq
    obtain ⟨l, hl⟩ := List.getLast?_eq_some_iff.mp hlines.last
    exact ⟨a ++ ("  <ItemGroup>" ++ nl ++ l), "  ", by rw [hl]; simp, by decide⟩

/-- The tags that a declaration brings, where there is none yet. -/
def declarationTags (t : Text) : List Text :=
  if (t.findAll takeFilter?).contains generatedFilter then []
  else ["Filter Include=\"Generated\"", "UniqueIdentifier"]

theorem Arranged.declareFilter (h : Arranged t) (hnl : IsLineBreak nl) :
    Arranged (declareFilter nl t) ∧ Adds (declarationTags t) (tags t) (declareFilter nl t) := by
  unfold ProjectFile.declareFilter declarationTags
  by_cases hdeclared : generatedFilter ∈ t.findAll takeFilter?
  · rw [if_pos hdeclared, if_pos (List.contains_iff_mem.mpr hdeclared)]
    exact ⟨h, Adds.refl t⟩
  · rw [if_neg hdeclared, if_neg (mt List.contains_iff_mem.mp hdeclared)]
    have hrow := row_declaration hnl
    have hregular : Regular (declaration nl) := by
      rcases hnl with rfl | rfl <;> exact regular_of_check (by decide +kernel)
    obtain ⟨-, hadds, -⟩ := h.spacious.insert takesPiece_takeFilter? hnl hrow.toLines
    rw [hrow.tags_eq] at hadds
    exact ⟨h.insert takesPiece_takeFilter? hnl hrow.toLines hregular, hadds⟩

/-! ## What filing items leaves as it is -/

/-- What an element is, whether items are filed or not: of an item the kind, and of the filter of an item
nothing. -/
def outlined (x : Text × List Text) : Option (Text × List Text) :=
  if x.1 = filterElement then none
  else if [ItemKind.element .compile, ItemKind.element .include_].contains (tagName x.1) then
    some (tagName x.1, x.2)
  else some x

/-- The elements of a text but for the filters of items, each with the elements around it. -/
def outline (t : Text) : List (Text × List Text) :=
  (tags t).filterMap outlined

theorem outlined_item {tag : Text} {kind : ItemKind} (h : tagName tag = kind.element)
    (within : List Text) : outlined (tag, within) = some (kind.element, within) := by
  have hkind : ∀ kind : ItemKind, kind.element ≠ tagName filterElement ∧
      kind.element ∈ [ItemKind.element .compile, ItemKind.element .include_] := by
    intro kind
    cases kind <;> decide
  unfold outlined
  rw [if_neg, if_pos]
  · exact congrArg (fun name => some (name, within)) h
  · exact List.contains_iff_mem.mpr (h ▸ (hkind kind).2)
  · rintro rfl
    exact (hkind kind).1 h.symm

/-- An exchange of elements that are the same but for the filing leaves the outline as it is. -/
theorem Exchange.outline_eq (hex : Exchange a u x b within) (h : WellFormed (a ++ (u ++ b)))
    (hsame : (tagsOf within x).filterMap outlined = (tagsOf within u).filterMap outlined) :
    outline (a ++ (x ++ b)) = outline (a ++ (u ++ b)) := by
  rw [outline, outline, tags_edit (hex.wellFormed h) hex.place hex.new, tags_edit h hex.place hex.old]
  simp only [List.filterMap_append, hsame]

/-- What the filing of an item comes to. -/
def Refiles (t out : Text) : Prop :=
  Arranged out ∧ outline out = outline t

/-- Elements of which none closes a group or the project are exchanged. -/
theorem Arranged.refiles {ps : List Piece} (h : Arranged (a ++ (u ++ b)))
    (hex : Exchange a u x b within) (hregular : Regular x) (hpieces : pieces? x = some ps)
    (hother : .other ∉ ps) (hnone : ∀ name ∈ [groupElement, projectElement], .closing name ∉ ps)
    (hline : u.getLast? = some '>' ∨
      u = [] ∧ x.getLast? = some '\n' ∧ (a.getLast? = some '\n' ∨ '\n' ∉ a))
    (hsame : (tagsOf within x).filterMap outlined = (tagsOf within u).filterMap outlined) :
    Refiles (a ++ (u ++ b)) (a ++ (x ++ b)) := by
  refine ⟨h.edit hex hregular ?_ hline, hex.outline_eq h.wellFormed hsame⟩
  intro closer hcloser x₁ x₂ heq
  exact absurd ⟨x₁, x₂, by rw [List.append_assoc, ← heq]⟩
    (closer_not_infix_of_pieces hpieces hother hnone closer hcloser)

/-- Elements between tags are exchanged. -/
theorem exchange_tags {ps qs : List Piece} (ha : openAt? a = some within)
    (hu : pieces? u = some ps) (hps : nest? [] ps = some []) (hother : .other ∉ ps)
    (hnone : ∀ name ∈ [groupElement, projectElement], .closing name ∉ ps)
    (hx : pieces? x = some qs) (hqs : nest? [] qs = some [])
    (hends : ∀ y ∈ [u, x], y.head? = some '<' ∧ y.getLast? = some '>') (b : Text) :
    Exchange a u x b within := by
  have hmeets : ∀ y ∈ [u, x], Meets a (y ++ b) ∧ Meets y b := by
    intro y hy
    have hhead : (y ++ b).head? = some '<' := by
      rw [List.head?_append, (hends y hy).1]
      rfl
    exact ⟨meets_of_head hhead (.inr rfl) a, meets_of_last (hends y hy).2 (.inr rfl) b⟩
  exact {
    place := ha
    old := by rw [WellFormed, openAt?, hu]; exact hps
    new := by rw [WellFormed, openAt?, hx]; exact hqs
    noCloser := closer_not_infix_of_pieces hu hother hnone
    meetsOld := hmeets u List.mem_cons_self
    meetsNew := hmeets x (List.mem_cons_of_mem u List.mem_cons_self) }

/-! ## Items that are listed -/

/-- What stands between the brackets of the tag that lists an item. -/
def listedTag (i : ProjectItem) (gap attributes : Text) : Text :=
  i.kind.element ++ (gap ++ ("Include=" ++ ('"' :: (i.path ++ '"' :: attributes))))

section

variable {gap attributes body rest : Text}

theorem opening_append_rest (i : ProjectItem) (gap rest : Text) :
    opening i.kind.element gap ++ (i.path ++ '"' :: rest) = '<' :: listedTag i gap rest := by
  unfold opening listedTag
  simp only [List.append_assoc, List.cons_append]
  rfl

theorem exists_listedTag_eq (i : ProjectItem) (gap attributes : Text) :
    ∃ r, listedTag i gap attributes = 'C' :: r := by
  obtain ⟨name, hname⟩ := exists_element_eq i.kind
  exact ⟨name ++ (gap ++ ("Include=" ++ ('"' :: (i.path ++ '"' :: attributes)))), by
    rw [listedTag, hname]; rfl⟩

theorem notMem_listedTag {c : Char} (h : c ∉ listedTag i gap attributes) :
    c ∉ i.path ∧ c ∉ attributes := by
  simp only [listedTag, List.mem_append, List.mem_cons, not_or] at h
  exact ⟨h.2.2.2.2.1, h.2.2.2.2.2.2⟩

/-- Where an item is listed in a text that is read to its end, there is a whole tag. -/
theorem exists_listedTag (hgap : Gap gap) (hquote : '"' ∉ i.path)
    (h : (pieces? ('<' :: listedTag i gap rest)).isSome) :
    ∃ attributes body p, rest = attributes ++ '>' :: body ∧ Spells (listedTag i gap attributes) p ∧
      ofTag? (listedTag i gap attributes) = some p := by
  have hrun : ∀ c ∈ i.kind.element ++ (gap ++ "Include=".toList), c ∉ ("<>\"'" : Text) := by
    have helement : ∀ c ∈ i.kind.element, c ∉ ("<>\"'" : Text) := by
      cases i.kind <;> exact forall_mem_of_all (by decide)
    have hblank : ∀ c ∈ ("<>\"'" : Text), isBlank c = false := forall_mem_of_all (by decide)
    have hinclude : ∀ c ∈ ("Include=" : Text), c ∉ ("<>\"'" : Text) := forall_mem_of_all (by decide)
    intro c hc
    rcases List.mem_append.mp hc with hc | hc
    · exact helement c hc
    · rcases List.mem_append.mp hc with hc | hc
      · exact fun hmem => absurd ((hblank c hmem).symm.trans (hgap.2 c hc)) Bool.false_ne_true
      · exact hinclude c hc
  obtain ⟨r, hr⟩ := exists_listedTag_eq i gap rest
  obtain ⟨p, body, htake⟩ := exists_take? h
  rw [take?, if_pos rfl, hr, takeInside?_tag (by decide), ← hr] at htake
  obtain ⟨⟨tag, body'⟩, htag, hfound⟩ := Option.bind_eq_some_iff.mp htake
  obtain ⟨p', hp, hpair⟩ := Option.map_eq_some_iff.mp hfound
  obtain ⟨rfl, rfl⟩ := Prod.mk.inj hpair
  have htext : ∀ s, listedTag i gap s =
      (i.kind.element ++ (gap ++ "Include=".toList)) ++ '"' :: (i.path ++ '"' :: s) := by
    intro s
    simp [listedTag]
  obtain ⟨-, -, hagain⟩ := of_takeTag? htag
  rw [htext] at htag
  obtain ⟨attributes, hattributes, rfl, -⟩ := takeTag?_run_value hrun hquote htag
  rw [← htext] at hagain hp
  obtain ⟨r', hr'⟩ := exists_listedTag_eq i gap attributes
  refine ⟨attributes, body', p', (of_takeTag? hattributes).1, ?_, hp⟩
  rw [hr'] at hagain hp ⊢
  exact spells_of_tag (by decide) hagain hp

/-- A tag that ends in a slash closes its element, which is an item of the kind. -/
theorem exists_single_of_listedTag {p : Piece} (hgap : Gap gap)
    (h : ofTag? (listedTag i gap attributes) = some p)
    (hslash : attributes.trimEnd.getLast? = some '/') :
    ∃ tag, p = .single tag ∧ tagName tag = i.kind.element := by
  have htext : ∀ s, listedTag i gap s =
      i.kind.element ++ (gap ++ ("Include=" ++ ('"' :: (i.path ++ ['"'])))) ++ s := by
    intro s
    simp [listedTag]
  have hlast : (i.kind.element ++ (gap ++ ("Include=" ++ ('"' :: (i.path ++ ['"']))))).getLast? =
      some '"' := by
    have hend : i.kind.element ++ (gap ++ ("Include=" ++ ('"' :: (i.path ++ ['"'])))) =
        i.kind.element ++ (gap ++ ("Include=" ++ ('"' :: i.path))) ++ ['"'] := by simp
    rw [hend, List.getLast?_concat]
  have htrim : ∀ s : Text, Text.trimEnd (listedTag i gap s) = listedTag i gap s.trimEnd := by
    intro s
    rw [htext, trimEnd_append hlast (by decide), ← htext]
  have hne : attributes ≠ [] := by
    rintro rfl
    cases hslash
  have hdrop : (listedTag i gap attributes).dropLast = listedTag i gap attributes.dropLast := by
    rw [htext, List.dropLast_append_of_ne_nil hne, ← htext]
  obtain ⟨r, hr⟩ := exists_listedTag_eq i gap attributes
  rw [hr, ofTag?, if_neg (by decide), if_neg (by decide), ← hr] at h
  split at h
  · cases h
    rw [hdrop, htrim]
    exact ⟨_, rfl, tagName_element hgap i.kind _⟩
  · have htail : (Text.trimEnd (listedTag i gap attributes)).getLast? = some '/' := by
      rw [htrim, htext, List.getLast?_append, hslash]
      rfl
    rw [if_pos htail] at h
    cases h

/-! ## One item is filed -/

/-- Before a bracket that starts something there is a place between markup. -/
theorem Arranged.exists_openAt? (h : Arranged (a ++ '<' :: rest)) : ∃ within, openAt? a = some within :=
  Markup.exists_openAt? h.wellFormed ((h.regular a '<' rest rfl).1 rfl)

theorem regular_filteredElement (hnl : IsLineBreak nl) (h : Quotable i.path) (hclose : '>' ∉ i.path)
    (hline : '\n' ∉ i.path) : Regular (filteredElement i nl) := by
  have hother : ∀ c : Char, c = '<' ∨ c = '>' ∨ c = '\n' → c ∉ i.path → c ∉ itemTag i := by
    intro c hc hpath
    have hname : c ∉ i.kind.element := by
      rcases hc with rfl | rfl | rfl <;> cases i.kind <;> decide
    have hinclude : c ∉ " Include=".toList := by
      rcases hc with rfl | rfl | rfl <;> decide
    have hquote : c ≠ '"' := by
      rcases hc with rfl | rfl | rfl <;> decide
    simp only [itemTag, List.mem_append, List.mem_cons, List.not_mem_nil, or_false, not_or]
    exact ⟨hname, hinclude, hquote, hpath, hquote⟩
  have htag := regular_piece (spells_itemTag h) (hother _ (.inl rfl) h.2)
    (hother _ (.inr (.inl rfl)) hclose) (hother _ (.inr (.inr rfl)) hline)
  have hrest : Regular (filteredRest i.kind nl) := by
    rcases hnl with rfl | rfl <;> cases i.kind <;> exact regular_of_check (by decide +kernel)
  have htext : filteredElement i nl = '<' :: (itemTag i ++ ['>']) ++ filteredRest i.kind nl := by
    rw [filteredElement_eq, openingTag, opening_append_path, List.nil_append]
  have hplace : (pieces? ('<' :: (itemTag i ++ ['>']))).isSome := by
    rw [pieces?_piece (spells_itemTag h), pieces?_nil]
    rfl
  rw [htext]
  exact htag.append hplace hrest

/-- An item that closes itself is opened up. -/
theorem Arranged.refiles_single {p : Piece} (hnl : IsLineBreak nl)
    (h : Arranged (a ++ ('<' :: (listedTag i gap attributes ++ ['>']) ++ body))) (hgap : Gap gap)
    (hquote : '"' ∉ i.path) (hspells : Spells (listedTag i gap attributes) p)
    (hp : ofTag? (listedTag i gap attributes) = some p)
    (hslash : attributes.trimEnd.getLast? = some '/') :
    Refiles (a ++ ('<' :: (listedTag i gap attributes ++ ['>']) ++ body))
      (a ++ (filteredElement i nl ++ body)) := by
  obtain ⟨within, ha⟩ := h.exists_openAt?
  obtain ⟨tag, rfl, htag⟩ := exists_single_of_listedTag hgap hp hslash
  have hold : pieces? ('<' :: (listedTag i gap attributes ++ ['>'])) = some [.single tag] := by
    rw [pieces?_piece hspells, pieces?_nil]
    rfl
  -- as the tag is regular, so is the new element
  have hpath : '<' ∉ i.path ∧ '>' ∉ i.path ∧ '\n' ∉ i.path := by
    have hregular : Regular ('<' :: (listedTag i gap attributes ++ '>' :: [])) :=
      (h.regular.right (isSome_pieces?_of_openAt? ha)).left
    obtain ⟨hstart, hend, hline⟩ := hregular.notMem_inside hspells
    exact ⟨(notMem_listedTag hstart).1, (notMem_listedTag hend).1, (notMem_listedTag hline).1⟩
  have hnew := pieces?_filteredElement hnl ⟨hquote, hpath.1⟩
  have hnone := notMem_filteredPieces i
  have hlast : (filteredElement i nl).getLast? = some '>' := by
    unfold filteredElement
    rw [List.getLast?_append]
    rfl
  refine h.refiles (exchange_tags ha hold rfl (by simp) (by simp) hnew (nest?_filteredPieces i) ?_ body)
    (regular_filteredElement hnl ⟨hquote, hpath.1⟩ hpath.2.1 hpath.2.2) hnew hnone.1 hnone.2
    (.inl (by rw [← List.cons_append, List.getLast?_concat])) ?_
  · simp only [List.forall_mem_cons]
    exact ⟨⟨rfl, by rw [← List.cons_append, List.getLast?_concat]⟩, ⟨rfl, hlast⟩, by simp⟩
  · have hfilter : ∀ w, outlined (filterElement, w) = none := fun w => if_pos rfl
    rw [tagsOf, tagsOf, hold, hnew]
    simp [filteredPieces, tagsIn, Piece.tag?, step?, outlined_item htag,
      outlined_item (tagName_itemTag i), hfilter]

theorem pieces?_filterTag {value : Text} (h : '<' ∉ value) :
    pieces? (filterTag value) = some [.opening filterElement, .closing filterElement] := by
  have hopen : Spells "Filter" (.opening filterElement) :=
    spells_plain (forall_mem_of_all (by decide)) (by decide)
  have hclose : Spells "/Filter" (.closing filterElement) :=
    spells_plain (forall_mem_of_all (by decide)) (by decide)
  have htext : filterTag value = '<' :: ("Filter".toList ++ '>' :: (value ++
      '<' :: ("/Filter".toList ++ '>' :: []))) := rfl
  rw [htext, pieces?_piece hopen, pieces?_of_notMem h, pieces?_piece hclose, pieces?_nil]
  rfl

/-- A filter gets another value. -/
theorem Arranged.refiles_filter {value : Text} (h : Arranged (a ++ (filterTag value ++ b)))
    (hvalue : '<' ∉ value) :
    Refiles (a ++ (filterTag value ++ b)) (a ++ (filterTag generatedFilter ++ b)) := by
  obtain ⟨within, ha⟩ := h.exists_openAt?
  have hold := pieces?_filterTag hvalue
  have hnew : pieces? (filterTag generatedFilter) = _ := pieces?_filterTag (by decide)
  have hends : ∀ v, (filterTag v).head? = some '<' ∧ (filterTag v).getLast? = some '>' := by
    intro v
    have htext : filterTag v = ("<Filter>" ++ v) ++ "</Filter>".toList :=
      (List.append_assoc _ _ _).symm
    refine ⟨rfl, ?_⟩
    rw [htext, List.getLast?_append]
    rfl
  refine h.refiles (exchange_tags ha hold (by decide) (by decide) (by decide) hnew (by decide) ?_ b)
    (regular_of_check (by decide +kernel)) hnew (by decide) (by decide) (.inl (hends value).2) ?_
  · simp [hends]
  · rw [tagsOf, tagsOf, hold, hnew]

/-- A line with the filter goes in. -/
theorem Arranged.refiles_line (hnl : IsLineBreak nl) (h : Arranged (a ++ b))
    (ha : openAt? a = some within) (hmeets : Meets a b) (hline : a.getLast? = some '\n' ∨ '\n' ∉ a) :
    Refiles (a ++ b) (a ++ (filterLine nl ++ b)) := by
  have hnew : pieces? (filterLine nl) = some [.opening filterElement, .closing filterElement] := by
    rcases hnl with rfl | rfl <;> decide +kernel
  have hwhole : WellFormed (filterLine nl) := by
    rcases hnl with rfl | rfl <;> decide +kernel
  have hregular : Regular (filterLine nl) := by
    rcases hnl with rfl | rfl <;> exact regular_of_check (by decide +kernel)
  have hlast : (filterLine nl).getLast? = some '\n' := getLast?_lineBreak hnl _
  refine Arranged.refiles (u := []) h (exchange_lines ha hmeets hwhole rfl hlast) hregular hnew
    (by decide) (by decide) (.inr ⟨rfl, hlast, hline⟩) ?_
  rw [tagsOf, tagsOf, hnew, pieces?_nil]
  rfl

/-- Behind a line break there is a place between markup. -/
theorem Arranged.exists_openAt?_line (h : Arranged (a ++ b)) (ha : a.getLast? = some '\n') :
    ∃ within, openAt? a = some within := by
  obtain ⟨a', rfl⟩ := List.getLast?_eq_some_iff.mp ha
  exact Markup.exists_openAt? h.wellFormed ((h.regular a' '\n' b (by simp)).2 (.inr rfl))

/-- The filter of an item with children is set. -/
theorem Arranged.refiles_setFilter {before children after : Text} {kind : ItemKind}
    (hnl : IsLineBreak nl)
    (h : Arranged (before ++ (attributes ++ '>' :: (children ++ (closingTag kind ++ after)))))
    (hangle : '<' ∉ attributes) (hclosing : ¬ closingTag kind <:+: children) :
    Refiles (before ++ (attributes ++ '>' :: (children ++ (closingTag kind ++ after))))
      (setFilter before (attributes ++ '>' :: children) nl ++ closingTag kind ++ after) := by
  cases hfirst : findFirst? takeFilterValue? (fun _ => true) (attributes ++ '>' :: children) with
  | some found =>
      obtain ⟨front, value, back, hvalue, rfl, -, -, hset⟩ :=
        setFilter_of_filter hangle hclosing (by rw [hfirst]; nofun) before nl
      have htext : ∀ v, before ++ (attributes ++ '>' :: (front ++ (filterTag v ++ back) ++
          (closingTag kind ++ after))) = (before ++ (attributes ++ '>' :: front)) ++
            (filterTag v ++ (back ++ (closingTag kind ++ after))) := by
        intro v
        simp only [List.append_assoc, List.cons_append]
      have hnew : setFilter before (attributes ++ '>' :: (front ++ (filterTag value ++ back))) nl ++
          closingTag kind ++ after = before ++ (attributes ++ '>' ::
            (front ++ (filterTag generatedFilter ++ back) ++ (closingTag kind ++ after))) := by
        rw [hset]
        simp only [List.append_assoc, List.cons_append]
      rw [hnew, htext, htext]
      rw [htext] at h
      exact h.refiles_filter hvalue
  | none =>
      obtain ⟨line, hfull, hlines, hstart⟩ :=
        insertBeforeLastLine_at (before ++ (attributes ++ '>' :: children)) (filterLine nl)
      have hnew : setFilter before (attributes ++ '>' :: children) nl ++ closingTag kind ++ after =
          beforeLastLine (before ++ (attributes ++ '>' :: children)) ++
            (filterLine nl ++ (line ++ (closingTag kind ++ after))) := by
        rw [setFilter_of_none hfirst, hlines]
        simp only [List.append_assoc]
      have htext : before ++ (attributes ++ '>' :: (children ++ (closingTag kind ++ after))) =
          before ++ (attributes ++ '>' :: children) ++ (closingTag kind ++ after) := by
        simp only [List.append_assoc, List.cons_append]
      rw [hnew, htext]
      rw [htext] at h
      generalize beforeLastLine (before ++ (attributes ++ '>' :: children)) = a at hfull hstart ⊢
      rw [hfull, List.append_assoc] at h ⊢
      rcases hstart with hbreak | ⟨rfl, hnone⟩
      · obtain ⟨within, ha⟩ := h.exists_openAt?_line hbreak
        exact h.refiles_line hnl ha (meets_of_last hbreak (.inl rfl) _) (.inl hbreak)
      · obtain ⟨within, ha⟩ := h.exists_openAt?
        refine h.refiles_line hnl ha (meets_of_head rfl (.inr rfl) a) (.inr fun hmem => hnone ?_)
        rw [hfull]
        exact List.mem_append_left [] hmem

/-- **An item that is listed is filed** by an exchange of elements. -/
theorem Arranged.assign? (hnl : IsLineBreak nl) (h : Arranged t)
    (hassign : ProjectFile.assign? i nl t = some out) : Refiles t out := by
  cases ho : locate? i t with
  | none =>
      rw [assign?_eq_none_iff.mpr ho] at hassign
      cases hassign
  | some o =>
      obtain ⟨hkey, -, -, hquote, ⟨gap, hgap, hsource⟩, ht⟩ := of_locate? ho
      have hlisted : ∀ rest, o.source ++ rest = '<' :: listedTag o.value gap rest := by
        intro rest
        rw [← opening_append_rest, hsource]
        simp only [List.append_assoc, List.singleton_append]
      have hplace : (pieces? o.before).isSome := by
        rw [hlisted] at ht
        exact (h.regular o.before '<' _ ht).1 rfl
      have hread : (pieces? ('<' :: listedTag o.value gap o.rest)).isSome := by
        have hwhole := isSome_pieces?_of_openAt? h.wellFormed
        rwa [ht, hlisted, isSome_pieces?_append hplace] at hwhole
      obtain ⟨attributes, body, p, hrest, hspells, hp⟩ := exists_listedTag hgap hquote hread
      have htag : o.source ++ o.rest =
          '<' :: (listedTag o.value gap attributes ++ ['>']) ++ body := by
        rw [hlisted, hrest]
        simp [listedTag]
      have hregular : Regular ('<' :: (listedTag o.value gap attributes ++ '>' :: body)) := by
        have hsuffix := (ht ▸ h.regular).right hplace
        rw [htag] at hsuffix
        simpa using hsuffix
      obtain ⟨hstart, hend, -⟩ := hregular.notMem_inside hspells
      have hangle := (notMem_listedTag hstart).2
      rw [assign?_eq ho hangle (notMem_listedTag hend).2 hrest] at hassign
      obtain rfl := Option.some.inj hassign
      split
      · next hslash =>
        rw [ht, htag] at h ⊢
        rw [List.append_assoc]
        exact h.refiles_single hnl hgap hquote hspells hp hslash
      · cases hcut : cut? body (closingTag i.kind) with
        | none => exact ⟨h, rfl⟩
        | some found =>
            have hbody := eq_append_of_cut? hcut
            have htext : t = (o.before ++ o.source) ++
                (attributes ++ '>' :: (found.1 ++ (closingTag i.kind ++ found.2))) := by
              rw [← hbody, ← hrest, List.append_assoc]
              exact ht
            rw [htext] at h ⊢
            exact h.refiles_setFilter hnl hangle (not_infix_of_cut? (List.cons_ne_nil _ _) hcut)

end

/-! ## All items are filed -/

/-- The items of a list are filed, those that are listed. -/
theorem Arranged.assignAll (hnl : IsLineBreak nl) (h : Arranged t) (items : List ProjectItem) :
    Refiles t (assignAll nl items t).1 := by
  induction items generalizing t with
  | nil => exact ⟨h, rfl⟩
  | cons i items ih =>
      rw [ProjectFile.assignAll]
      cases hassign : ProjectFile.assign? i nl t with
      | none => exact ih h
      | some mid =>
          obtain ⟨hmid, houtline⟩ := h.assign? hnl hassign
          obtain ⟨hout, houtline'⟩ := ih hmid
          exact ⟨hout, houtline'.trans houtline⟩

/-! ## What goes into a file -/

/-- A tag that filing leaves alone. -/
def Untouched (tag : Text) : Prop :=
  tag ≠ filterElement ∧ tagName tag ∉ [ItemKind.element .compile, ItemKind.element .include_]

theorem outlined_of_untouched {x : Text × List Text} (h : Untouched x.1) : outlined x = some x := by
  rw [outlined, if_neg h.1, if_neg (mt List.contains_iff_mem.mp h.2)]

theorem filterMap_outlined {l : List (Text × List Text)} (h : ∀ x ∈ l, Untouched x.1) :
    l.filterMap outlined = l := by
  induction l with
  | nil => rfl
  | cons x l ih =>
      rw [List.forall_mem_cons] at h
      rw [List.filterMap_cons_some (outlined_of_untouched h.1), ih h.2]

theorem eq_of_outlined {x y : Text × List Text} (hx : Untouched x.1) (h : outlined y = some x) :
    y = x := by
  unfold outlined at h
  split at h
  · cases h
  · split at h
    · next hitem =>
      cases h
      have hname : ∀ name ∈ [ItemKind.element .compile, ItemKind.element .include_],
          tagName name = name := by
        decide
      have hmem := List.contains_iff_mem.mp hitem
      exact absurd ((hname _ hmem).symm ▸ hmem) hx.2
    · exact Option.some.inj h

/-- Elements that filing leaves alone are found again behind it. -/
theorem exists_perm_of_outlined {new l old : List (Text × List Text)}
    (hnew : ∀ x ∈ new, Untouched x.1) (h : (l.filterMap outlined).Perm (new ++ old)) :
    ∃ kept, l.Perm (new ++ kept) ∧ (kept.filterMap outlined).Perm old := by
  induction new generalizing l with
  | nil => exact ⟨l, .refl l, h⟩
  | cons x new ih =>
      rw [List.forall_mem_cons] at hnew
      obtain ⟨y, hy, hyx⟩ := List.mem_filterMap.mp (h.mem_iff.mpr List.mem_cons_self)
      obtain rfl := eq_of_outlined hnew.1 hyx
      have hl := List.perm_cons_erase hy
      have hrest := (hl.filterMap outlined).symm.trans h
      rw [List.filterMap_cons_some hyx, List.cons_append, List.perm_cons] at hrest
      obtain ⟨kept, hkept, hold⟩ := ih hnew.2 hrest
      exact ⟨kept, hl.trans (hkept.cons y), hold⟩

/-- Where filing follows, what was put in before it is still there. -/
theorem Adds.refiled {new : List Text} {old : List (Text × List Text)} {mid : Text}
    (h : Adds new old mid) (hnew : ∀ tag ∈ new, Untouched tag) (houtline : outline out = outline mid) :
    ∃ kept, (kept.filterMap outlined).Perm (old.filterMap outlined) ∧ Adds new kept out := by
  obtain ⟨groups, placed, hperm, hgroups, hplaced, hin⟩ := h
  have hall : ∀ x ∈ groups ++ placed, Untouched x.1 := by
    intro x hx
    rcases List.mem_append.mp hx with hx | hx
    · rw [hgroups x hx]
      exact ⟨by decide, by decide⟩
    · exact hnew x.1 (hplaced.mem_iff.mp (List.mem_map_of_mem hx))
  have hout := hperm.filterMap outlined
  rw [List.filterMap_append, filterMap_outlined hall, ← outline, ← houtline] at hout
  obtain ⟨kept, hkept, hold⟩ := exists_perm_of_outlined hall hout
  exact ⟨kept, hold, groups, placed, hkept, hgroups, hplaced, hin⟩

/-- The items that a filters file does not list once the filter is declared. -/
def unlistedItems (t : Text) (projectDir : Path) (files : List Path) : List ProjectItem :=
  (assignAll (lineBreak t) (unseen [] (ofFiles projectDir files)) (declareFilter (lineBreak t) t)).2

section

variable {projectDir : Path} {files : List Path}

/-- New items go into a text that is laid out for them, or has room for the one kind that they are of. -/
theorem addItems?_adds (hpaths : ∀ i ∈ ofFiles projectDir files, Quotable i.path)
    (h : LaidOut t ∨
      Spacious t ∧ ∃ kind, ∀ i ∈ missingItems t projectDir files, i.kind = kind)
    (hout : addItems? t projectDir files = some out) :
    WellFormed out ∧ Adds ((missingItems t projectDir files).map itemTag) (tags t) out := by
  have hnl := isLineBreak_lineBreak t
  have hrow : ∀ i ∈ missingItems t projectDir files, Row (itemLine (lineBreak t) i)
      [.single (itemTag i)] := fun i hi => row_itemLine hnl (hpaths i (of_mem_unseen hi).1)
  have htags : (missingItems t projectDir files).map itemTag =
      rowTags (fun i => [.single (itemTag i)]) (missingItems t projectDir files) := by
    rw [rowTags, List.map_eq_flatMap]
    rfl
  rw [eq_of_addItems? hout, htags]
  rcases h with h | ⟨h, kind, hkind⟩
  · obtain ⟨hlaid, hadds⟩ := h.insertItems hnl hrow
    exact ⟨hlaid.wellFormed, hadds⟩
  · exact h.insertItems hnl hrow hkind

theorem Arranged.addFilters? (hpaths : ∀ i ∈ ofFiles projectDir files, Quotable i.path)
    (h : Arranged t) (hout : ProjectFile.addFilters? t projectDir files = some out) :
    WellFormed out ∧ ∃ kept, (kept.filterMap outlined).Perm (outline t) ∧
      Adds (declarationTags t ++ rowTags filteredPieces (unlistedItems t projectDir files)) kept
        out := by
  have hnl := isLineBreak_lineBreak t
  rw [addFilters?_eq] at hout
  split at hout
  · cases hout
  obtain rfl := Option.some.inj hout
  obtain ⟨hdeclared, hdeclaration⟩ := h.declareFilter hnl
  obtain ⟨hassigned, houtline⟩ := hdeclared.assignAll hnl (unseen [] (ofFiles projectDir files))
  have hsub := assignAll_sublist (lineBreak t) (unseen [] (ofFiles projectDir files))
    (ProjectFile.declareFilter (lineBreak t) t)
  have huntouched : ∀ tag ∈ declarationTags t, Untouched tag := by
    unfold declarationTags
    split
    · simp
    · simp only [List.forall_mem_cons]
      exact ⟨⟨by decide, by decide⟩, ⟨by decide, by decide⟩, by simp⟩
  obtain ⟨kept, hkept, hadds⟩ := hdeclaration.refiled huntouched houtline
  obtain ⟨hlaid, hitems⟩ := hassigned.toLaidOut.insertItems hnl
    fun i (hi : i ∈ unlistedItems t projectDir files) =>
      row_filteredLine hnl (hpaths i (of_mem_unseen (hsub.subset hi)).1)
  exact ⟨hlaid.wellFormed, kept, hkept, hadds.trans hitems⟩

/-- **What goes into a project goes into item groups.** In a project file that is laid out for it, or has
room for new items of one kind, each new item stands in an item group, each new group directly in the
project, and all else is as before. In a filters file that can be edited, so do the declaration of the
filter and the new items, and all else is as before but for the filing of the items that were listed. -/
theorem insertions_in_groups (hpaths : ∀ i ∈ ofFiles projectDir files, Quotable i.path) :
    (∀ t out, (LaidOut t ∨
        Spacious t ∧ ∃ kind, ∀ i ∈ missingItems t projectDir files, i.kind = kind) →
      addItems? t projectDir files = some out →
        WellFormed out ∧ Adds ((missingItems t projectDir files).map itemTag) (tags t) out) ∧
    ∀ t out, Arranged t → addFilters? t projectDir files = some out →
      WellFormed out ∧ ∃ kept, (kept.filterMap outlined).Perm (outline t) ∧
        Adds (declarationTags t ++ rowTags filteredPieces (unlistedItems t projectDir files)) kept
          out :=
  ⟨fun _ _ h hout => addItems?_adds hpaths h hout, fun _ _ h hout => h.addFilters? hpaths hout⟩

end

/-- A project file with a comment that runs over two lines and holds a tag. -/
def commentedProject : Text :=
  "<?xml version=\"1.0\"?>\n<Project>\n  <!-- no <ItemGroup>\n       for headers -->\n" ++
  "  <PropertyGroup Condition=\"1 > 0\" />\n  <ItemGroup>\n    <ClCompile Include=\"A.cpp\" />\n" ++
  "  </ItemGroup>\n</Project>\n"

theorem insertions_in_groups_mixed :
    (∀ i ∈ ofFiles "/proj" mixedFiles, Quotable i.path) ∧ LaidOut commentedProject ∧
      Arranged mixedFilters ∧
      (∃ out, addItems? commentedProject "/proj" mixedFiles = some out ∧ WellFormed out ∧
        Adds ["ClCompile Include=\"B.cpp\"", "ClInclude Include=\"C.h\"", "ClInclude Include=\"D.h\""]
          (tags commentedProject) out) ∧
      ∃ out, addFilters? mixedFilters "/proj" mixedFiles = some out ∧ WellFormed out ∧
        ∃ kept, (kept.filterMap outlined).Perm (outline mixedFilters) ∧
          Adds ["Filter Include=\"Generated\"", "UniqueIdentifier", "ClInclude Include=\"D.h\"", "Filter"]
            kept out := by
  have hfiles : ofFiles "/proj" mixedFiles =
      [⟨.compile, "A.cpp"⟩, ⟨.compile, "B.cpp"⟩, ⟨.include_, "C.h"⟩, ⟨.include_, "D.h"⟩] := by
    decide +kernel
  have hpaths : ∀ i ∈ ofFiles "/proj" mixedFiles, Quotable i.path := by
    rw [hfiles]
    simp [Quotable]
  have hproject : LaidOut commentedProject := laidOut_of_check (by decide +kernel)
  have hfilters : Arranged mixedFilters := arranged_of_check (by decide +kernel)
  have hitems : addItems? commentedProject "/proj" mixedFiles ≠ none ∧
      (missingItems commentedProject "/proj" mixedFiles).map itemTag =
        (["ClCompile Include=\"B.cpp\"", "ClInclude Include=\"C.h\"", "ClInclude Include=\"D.h\""] :
          List Text) := by
    decide +kernel
  have hfiled : addFilters? mixedFilters "/proj" mixedFiles ≠ none ∧ declarationTags mixedFilters ++
      rowTags filteredPieces (unlistedItems mixedFilters "/proj" mixedFiles) =
        (["Filter Include=\"Generated\"", "UniqueIdentifier", "ClInclude Include=\"D.h\"", "Filter"] :
          List Text) := by
    decide +kernel
  obtain ⟨hsome, hnew⟩ := hitems
  obtain ⟨hsome', hnew'⟩ := hfiled
  obtain ⟨out, hout⟩ := Option.ne_none_iff_exists'.mp hsome
  obtain ⟨out', hout'⟩ := Option.ne_none_iff_exists'.mp hsome'
  have hall := insertions_in_groups hpaths
  exact ⟨hpaths, hproject, hfilters, ⟨out, hout, hnew ▸ hall.1 _ out (.inl hproject) hout⟩,
    out', hout', hnew' ▸ hall.2 _ out' hfilters hout'⟩

/-- A project file with a group on one line. -/
def flatProject : Text :=
  "<Project>\n  <ItemGroup><ClCompile Include=\"A.cpp\" /></ItemGroup>\n</Project>\n"

/-- A project file whose last element ends on the line that closes the project. -/
def packedProject : Text :=
  "<Project>\n  <PropertyGroup>\n  </PropertyGroup></Project>\n"

/-- Lines go in at the start of the line of a closing tag. Where a group is on one line, a new item stands
before the group, directly in the project. Where the end of another element shares the line that closes
the project, a new group stands in that element. -/
theorem inserted_outside_groups :
    (WellFormed flatProject ∧ ∃ out, addItems? flatProject "/proj" ["/proj/B.cpp".toList] = some out ∧
      WellFormed out ∧ ("ClCompile Include=\"B.cpp\"".toList, [projectElement]) ∈ tags out) ∧
    WellFormed packedProject ∧ ∃ out, addItems? packedProject "/proj" ["/proj/B.cpp".toList] = some out ∧
      WellFormed out ∧ (groupElement, ["PropertyGroup".toList, projectElement]) ∈ tags out := by
  refine ⟨⟨?_, "<Project>\n    <ClCompile Include=\"B.cpp\" />\n" ++
      "  <ItemGroup><ClCompile Include=\"A.cpp\" /></ItemGroup>\n</Project>\n", ?_⟩, ?_,
    "<Project>\n  <PropertyGroup>\n  <ItemGroup>\n    <ClCompile Include=\"B.cpp\" />\n" ++
      "  </ItemGroup>\n  </PropertyGroup></Project>\n", ?_⟩
  · decide +kernel
  · decide +kernel
  · decide +kernel
  · decide +kernel

end Registrar.ProjectFile
