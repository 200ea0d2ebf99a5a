import Registrar.Proofs.FilterDocuments
import Registrar.Proofs.Markup

/-!
# Where lines go in

Lines go in at the start of the line on which a tag closes an item group or the project, wherever that
line starts. In a text that has room for them (`Spacious`) it starts in an item group, or directly in the
project. What is new in the text are then the elements of the lines, each in an item group, and perhaps a
group directly in the project (`Adds`). Where the project is not closed on the first line (`LaidOut`), an
insertion leaves the text so, and the next one can follow (`Spacious.insert`).
-/

namespace Registrar.Text

/-- A text up to the start of its last line. All of it, if it has one line only. -/
def beforeLastLine (t : Text) : Text :=
  if '\n' ∈ t then (t.splitTail (· ≠ '\n')).1 else t

theorem beforeLastLine_of_notMem {t : Text} (h : '\n' ∉ t) : beforeLastLine t = t :=
  if_neg h

theorem splitTail_line {s t : Text} (hs : s.getLast? = some '\n') (ht : '\n' ∉ t) :
    (s ++ t).splitTail (· ≠ '\n') = (s, t) := by
  refine splitTail_append (decide_ne_of_notMem ht) fun c hc => ?_
  rw [hs] at hc
  cases hc
  rfl

theorem beforeLastLine_append {s t : Text} (hs : s.getLast? = some '\n') (ht : '\n' ∉ t) :
    beforeLastLine (s ++ t) = s := by
  rw [beforeLastLine, if_pos (List.mem_append_left t (List.mem_of_getLast? hs)), splitTail_line hs ht]

/-- The last line starts in the second of two texts if that has a line break. -/
theorem beforeLastLine_append_of_mem {t : Text} (h : '\n' ∈ t) (s : Text) :
    beforeLastLine (s ++ t) = s ++ beforeLastLine t := by
  obtain ⟨a, b, rfl, ha, hb, -⟩ := insertBeforeLastLine_append_of_mem h [] []
  have hs : (s ++ a).getLast? = some '\n' := by
    rw [List.getLast?_append, ha]
    rfl
  rw [← List.append_assoc, beforeLastLine_append hs hb, beforeLastLine_append ha hb]

theorem insertBeforeLastLine_at (t lines : Text) :
    ∃ line, t = beforeLastLine t ++ line ∧
      insertBeforeLastLine t lines = beforeLastLine t ++ (lines ++ line) ∧
      ((beforeLastLine t).getLast? = some '\n' ∨ line = [] ∧ '\n' ∉ t) := by
  obtain ⟨a, b, rfl, hlines, hb, ha | ⟨rfl, ha⟩⟩ := insertBeforeLastLine_eq t lines
  · rw [beforeLastLine_append ha hb]
    exact ⟨b, rfl, hlines, .inl ha⟩
  · have hnot : '\n' ∉ a ++ [] := by rwa [List.append_nil]
    rw [beforeLastLine_of_notMem hnot]
    exact ⟨[], (List.append_nil _).symm, by simpa using hlines, .inr ⟨rfl, hnot⟩⟩

theorem cutLast?_eq_none_iff {t needle : Text} : t.cutLast? needle = none ↔ ¬ needle <:+: t := by
  rw [cutLast?, Option.map_eq_none_iff, cut?_eq_none_iff, List.reverse_infix]

theorem not_infix_of_cutLast? {t needle before after : Text} (hne : needle ≠ [])
    (h : t.cutLast? needle = some (before, after)) : ¬ needle <:+: after := by
  obtain ⟨⟨x, y⟩, hcut, heq⟩ := Option.map_eq_some_iff.mp h
  obtain ⟨-, rfl⟩ := Prod.mk.inj heq
  have hnot := not_infix_of_cut? (by simpa using hne) hcut
  rwa [← List.reverse_infix, List.reverse_reverse]

end Registrar.Text

namespace Registrar.ProjectFile

open Text Markup

variable {a b u x t out closer nl lines : Text} {within : List Text}

/-! ## Closing tags in texts put together -/

/-- No closing tag of a group or the project runs from one text into the other. -/
def Meets (a b : Text) : Prop :=
  ∀ closer ∈ closers, ∀ s r, closer = s ++ r → s ≠ [] → r ≠ [] → s <:+ a → ¬ r <+: b

theorem meets_nil (b : Text) : Meets [] b :=
  fun _ _ _ _ _ hs _ hsuffix => absurd (List.suffix_nil.mp hsuffix) hs

theorem meets_of_last {c : Char} (ha : a.getLast? = some c) (hc : c = '\n' ∨ c = '>') (b : Text) :
    Meets a b := by
  rintro closer hcloser s r heq hs hr ⟨front, rfl⟩ -
  obtain ⟨d, tag, rfl, -, hangle, hclose, hline⟩ := closer_eq hcloser
  obtain ⟨q, rfl, -, hend, -, -⟩ := tag_crossing hangle hclose hs hr heq
  have hmem : c ∈ '<' :: q := mem_of_getLast?_append ha hs
  have htag : c ∈ '<' :: ('/' :: d :: tag ++ ['>']) := heq ▸ List.mem_append_left r hmem
  rcases hc with rfl | rfl
  · simp only [List.cons_append, List.mem_cons, List.mem_append, not_or] at htag hline
    simp [hline] at htag
  · simp [hend] at hmem

theorem meets_of_head {c : Char} (hb : b.head? = some c) (hc : c = ' ' ∨ c = '<') (a : Text) :
    Meets a b := by
  rintro closer hcloser s r heq hs hr - ⟨rest, rfl⟩
  obtain ⟨d, r, rfl⟩ := List.exists_cons_of_ne_nil hr
  obtain rfl : d = c := Option.some.inj hb
  obtain ⟨e, tag, rfl, -, hangle, hclose, -⟩ := closer_eq hcloser
  obtain ⟨q, rfl, -, -, -, hstart⟩ := tag_crossing hangle hclose hs hr heq
  rcases hc with rfl | rfl
  · have hspace : ∀ closer ∈ closers, ' ' ∉ closer := by decide
    exact hspace _ hcloser (heq ▸ List.mem_append_right _ List.mem_cons_self)
  · exact hstart List.mem_cons_self

theorem Meets.of_suffix {m : Text} (h : Meets a b) (hm : m <:+ a) : Meets m b :=
  fun closer hcloser s r heq hs hr hsuffix => h closer hcloser s r heq hs hr (hsuffix.trans hm)

/-- A closing tag in two texts stands in one of them. -/
theorem Meets.cases (h : Meets a b) (hcloser : closer ∈ closers) {before after : Text}
    (heq : a ++ b = before ++ (closer ++ after)) :
    (∃ rest, a = before ++ (closer ++ rest) ∧ after = rest ++ b) ∨
      ∃ front, before = a ++ front ∧ b = front ++ (closer ++ after) := by
  rcases append_eq_append_cases heq with ⟨rest, rfl, hrest⟩ | ⟨front, -, hbefore, hb⟩
  · rcases append_eq_append_cases hrest.symm with ⟨rest', rfl, hafter⟩ | ⟨s, hs, hcut, hb⟩
    · exact .inl ⟨rest', rfl, hafter⟩
    · by_cases hne : rest = []
      · subst hne
        rw [List.nil_append] at hcut
        exact .inr ⟨[], by simp, by rw [hcut, ← hb]; rfl⟩
      · exact absurd ⟨after, hb.symm⟩ (h closer hcloser rest s hcut hne hs (List.suffix_append _ _))
  · exact .inr ⟨front, hbefore, hb⟩

theorem Meets.infix_cases (h : Meets a b) (hcloser : closer ∈ closers) (hin : closer <:+: a ++ b) :
    closer <:+: a ∨ closer <:+: b := by
  obtain ⟨before, after, heq⟩ := hin
  rw [List.append_assoc] at heq
  rcases h.cases hcloser heq.symm with ⟨rest, rfl, -⟩ | ⟨front, -, rfl⟩
  · exact .inl ⟨before, rest, List.append_assoc _ _ _⟩
  · exact .inr ⟨front, after, List.append_assoc _ _ _⟩

/-! ## Texts that lines can go into -/

def groupElement : Text := "ItemGroup"

def projectElement : Text := "Project"

/-- Where the line of a closing tag has to start: in an item group, or directly in the project. -/
def Admits (closer : Text) (within : List Text) : Prop :=
  if closer = "</ItemGroup>" then groupElement ∈ within else within = [projectElement]

instance (closer : Text) (within : List Text) : Decidable (Admits closer within) :=
  inferInstanceAs (Decidable (ite _ _ _))

/-- The line of a closing tag behind the text starts where lines can go in. -/
def LineStarts (closer before : Text) : Prop :=
  ∃ within, openAt? (beforeLastLine before) = some within ∧ Admits closer within

instance (closer before : Text) : Decidable (LineStarts closer before) :=
  decidable_of_iff
    ((openAt? (beforeLastLine before)).any (fun within => decide (Admits closer within)) = true)
    (by simp [LineStarts, Option.any_eq_true])

/-- The line starts there, and the tag that closes the project is not on the first line. -/
def LineFits (closer before : Text) : Prop :=
  (closer = "</Project>" → '\n' ∈ before) ∧ LineStarts closer before

instance (closer before : Text) : Decidable (LineFits closer before) :=
  inferInstanceAs (Decidable (_ ∧ _))

/-- Of what looks like the end of the project only the last one counts. -/
def Final (closer after : Text) : Prop :=
  closer = "</Project>" → ¬ closer <:+: after

/-- Something is so before each closing tag of a group, and before that of the project. -/
def AtClosers (holds : Text → Text → Prop) (t : Text) : Prop :=
  ∀ closer ∈ closers, ∀ before after, t = before ++ (closer ++ after) → Final closer after →
    holds closer before

/-- Is something so before each closing tag? -/
def atClosers (holds : Text → Text → Bool) (t : Text) : Bool :=
  (List.range t.length).all fun n => closers.all fun closer =>
    !closer.isPrefixOf (t.drop n) || holds closer (t.take n)

theorem atClosers_of_check {holds : Text → Text → Prop}
    [∀ closer before, Decidable (holds closer before)]
    (h : atClosers (fun closer before => holds closer before) t = true) : AtClosers holds t := by
  rintro closer hcloser before after rfl -
  have hne : closer ≠ [] := by
    obtain ⟨c, tag, rfl, -⟩ := closer_eq hcloser
    exact List.cons_ne_nil _ _
  have hn : before.length ∈ List.range (before ++ (closer ++ after)).length := by
    have hpos := List.length_pos_iff.mpr hne
    simp only [List.mem_range, List.length_append]
    omega
  have hcheck := List.all_eq_true.mp (List.all_eq_true.mp h _ hn) closer hcloser
  rw [List.drop_left, List.take_left,
    List.isPrefixOf_iff_prefix.mpr (List.prefix_append closer after)] at hcheck
  exact of_decide_eq_true hcheck

/-- **A text that lines can go into**, once. -/
structure Spacious (t : Text) : Prop where
  wellFormed : WellFormed t
  starts : AtClosers LineStarts t
  closes : "</Project>".toList <:+: t

/-- **A text that lines can go into**, time and again. -/
structure LaidOut (t : Text) : Prop where
  wellFormed : WellFormed t
  fits : AtClosers LineFits t
  closes : "</Project>".toList <:+: t

theorem LaidOut.spacious (h : LaidOut t) : Spacious t :=
  ⟨h.wellFormed, fun closer hcloser before after heq hfinal =>
    (h.fits closer hcloser before after heq hfinal).2, h.closes⟩

def laidOut (t : Text) : Bool :=
  decide (WellFormed t) && atClosers (fun closer before => LineFits closer before) t &&
    decide ("</Project>".toList <:+: t)

theorem laidOut_of_check (h : laidOut t = true) : LaidOut t := by
  rw [laidOut, Bool.and_eq_true, Bool.and_eq_true] at h
  exact ⟨of_decide_eq_true h.1.1, atClosers_of_check h.1.2, of_decide_eq_true h.2⟩

theorem project_mem_closers : "</Project>".toList ∈ closers :=
  List.mem_cons_of_mem _ List.mem_cons_self

/-! ## Edits -/

/-- One text can take the place of another: it is a place between markup, every element that they open
they close, and no closing tag of a group or the project runs across an end of them. -/
structure Exchange (a u x b : Text) (within : List Text) : Prop where
  place : openAt? a = some within
  old : WellFormed u
  new : WellFormed x
  noCloser : ∀ closer ∈ closers, ¬ closer <:+: u
  meetsOld : Meets a (u ++ b) ∧ Meets u b
  meetsNew : Meets a (x ++ b) ∧ Meets x b

namespace Exchange

theorem wellFormed (hex : Exchange a u x b within) (h : WellFormed (a ++ (u ++ b))) :
    WellFormed (a ++ (x ++ b)) :=
  (openAt?_edit hex.place hex.old hex.new b).trans h

/-- The closing tags of the text before the edit are those of its outer parts. -/
theorem infix_cases (hex : Exchange a u x b within) (hcloser : closer ∈ closers) {m : Text}
    (hm : m <:+ a) (hin : closer <:+: m ++ (u ++ b)) : closer <:+: m ∨ closer <:+: b := by
  rcases (hex.meetsOld.1.of_suffix hm).infix_cases hcloser hin with hin | hin
  · exact .inl hin
  · exact .inr ((hex.meetsOld.2.infix_cases hcloser hin).resolve_left (hex.noCloser closer hcloser))

/-- A closing tag of an outer part is one of the text after the edit. -/
theorem infix_of_cases {m : Text} (h : closer <:+: m ∨ closer <:+: b) (x : Text) :
    closer <:+: m ++ (x ++ b) := by
  rcases h with hin | hin
  · exact hin.trans (List.prefix_append m _).isInfix
  · exact hin.trans ((List.suffix_append x b).trans (List.suffix_append m _)).isInfix

/-- What is so at the closing tags stays so, if it is so at those in the new part, and the edit does not
change it for those behind it. -/
theorem atClosers {holds : Text → Text → Prop} (hex : Exchange a u x b within)
    (h : AtClosers holds (a ++ (u ++ b)))
    (hinside : ∀ closer ∈ closers, ∀ x₁ x₂, x = x₁ ++ (closer ++ x₂) → holds closer (a ++ x₁))
    (hbehind : ∀ closer ∈ closers, ∀ b₁ b₂, b = b₁ ++ (closer ++ b₂) → Final closer b₂ →
      holds closer (a ++ (u ++ b₁)) → holds closer (a ++ (x ++ b₁))) :
    AtClosers holds (a ++ (x ++ b)) := by
  intro closer hcloser before after heq hfinal
  rcases hex.meetsNew.1.cases hcloser heq with ⟨m, rfl, rfl⟩ | ⟨front, rfl, hfront⟩
  · refine h closer hcloser before (m ++ (u ++ b)) (by simp) fun hproject hin => ?_
    have hm : m <:+ before ++ (closer ++ m) := ⟨before ++ closer, by simp⟩
    exact hfinal hproject (infix_of_cases (hex.infix_cases hcloser hm hin) x)
  · rcases hex.meetsNew.2.cases hcloser hfront with ⟨rest, hx, -⟩ | ⟨b₁, rfl, rfl⟩
    · exact hinside closer hcloser front rest hx
    · exact hbehind closer hcloser b₁ after rfl hfinal (h closer hcloser _ after (by simp) hfinal)

theorem closes (hex : Exchange a u x b within) (h : "</Project>".toList <:+: a ++ (u ++ b)) :
    "</Project>".toList <:+: a ++ (x ++ b) :=
  infix_of_cases (hex.infix_cases project_mem_closers (List.suffix_refl a) h) x

/-- A line starts where it did if it starts behind the place of the edit. -/
theorem lineFits {b₁ : Text} (hex : Exchange a u x b within) (hline : '\n' ∈ b₁)
    (h : LineFits closer (a ++ (u ++ b₁))) : LineFits closer (a ++ (x ++ b₁)) := by
  have hstart : ∀ y, beforeLastLine (a ++ (y ++ b₁)) = a ++ (y ++ beforeLastLine b₁) := by
    intro y
    rw [← List.append_assoc, beforeLastLine_append_of_mem hline, List.append_assoc]
  obtain ⟨-, within', hopen, hadmits⟩ := h
  refine ⟨fun _ => by simp [hline], within', ?_, hadmits⟩
  rw [hstart] at hopen ⊢
  rw [openAt?_edit hex.place hex.old hex.new, hopen]

end Exchange

/-! ## Lines put in -/

/-- Lines that can go into a group: whole elements on lines of their own, without the end of a group or
the project. -/
structure Lines (x : Text) : Prop where
  wellFormed : WellFormed x
  head : x.head? = some ' '
  last : x.getLast? = some '\n'
  noCloser : ∀ closer ∈ closers, ¬ closer <:+: x

theorem exchange_lines (ha : openAt? a = some within) (hab : Meets a b) (hx : WellFormed x)
    (hhead : x.head? = some ' ') (hlast : x.getLast? = some '\n') : Exchange a [] x b within := by
  have hstart : (x ++ b).head? = some ' ' := by
    rw [List.head?_append, hhead]
    rfl
  exact ⟨ha, wellFormed_nil, hx, by decide, ⟨hab, meets_nil b⟩,
    meets_of_head hstart (.inl rfl) a, meets_of_last hlast (.inl rfl) b⟩

/-- Behind lines that are put in, a line starts where they do. -/
theorem lineFits_behind {b₁ : Text} (ha : openAt? a = some within) (hx : WellFormed x)
    (hlast : x.getLast? = some '\n') (hb₁ : '\n' ∉ b₁) (h : Admits closer within) :
    LineFits closer (a ++ (x ++ b₁)) := by
  have hend : (a ++ x).getLast? = some '\n' := by
    rw [List.getLast?_append, hlast]
    rfl
  refine ⟨fun _ => by simp [List.mem_of_getLast? hlast], within, ?_, h⟩
  rw [← List.append_assoc, beforeLastLine_append hend hb₁, openAt?_append_wellFormed ha hx]

theorem admits_of_lineFits {b₁ : Text} (ha : openAt? a = some within)
    (hline : a.getLast? = some '\n') (hb₁ : '\n' ∉ b₁) (h : LineFits closer (a ++ b₁)) :
    Admits closer within := by
  obtain ⟨-, within', hopen, hadmits⟩ := h
  rw [beforeLastLine_append hline hb₁, ha] at hopen
  cases hopen
  exact hadmits

/-- **Lines go in** at the start of a line, or on the first line within an item group. -/
theorem LaidOut.splice (h : LaidOut (a ++ b)) (hex : Exchange a [] x b within)
    (hlast : x.getLast? = some '\n')
    (hline : a.getLast? = some '\n' ∨ '\n' ∉ a ∧ groupElement ∈ within)
    (hinside : ∀ closer ∈ closers, ∀ x₁ x₂, x = x₁ ++ (closer ++ x₂) → LineFits closer (a ++ x₁)) :
    LaidOut (a ++ (x ++ b)) := by
  refine ⟨hex.wellFormed h.wellFormed, hex.atClosers h.fits hinside ?_, hex.closes h.closes⟩
  intro closer hcloser b₁ b₂ _ _ hfits
  by_cases hb₁ : '\n' ∈ b₁
  · exact hex.lineFits hb₁ hfits
  · refine lineFits_behind hex.place hex.new hlast hb₁ ?_
    rcases hline with hline | ⟨hnone, hgroup⟩
    · exact admits_of_lineFits hex.place hline hb₁ hfits
    · simp only [closers, List.mem_cons, List.not_mem_nil, or_false] at hcloser
      rcases hcloser with rfl | rfl
      · exact hgroup
      · exact absurd (hfits.1 rfl) (by simp [hnone, hb₁])

/-! ## Groups of lines -/

theorem openAt?_groupStart (hnl : IsLineBreak nl) :
    openAt? ("  <ItemGroup>" ++ nl) = some [groupElement] := by
  rcases hnl with rfl | rfl <;> decide +kernel

theorem pieces?_groupEnd (hnl : IsLineBreak nl) :
    pieces? ("  </ItemGroup>" ++ nl) = some [.closing groupElement] := by
  rcases hnl with rfl | rfl <;> decide +kernel

theorem wellFormed_itemGroup (hnl : IsLineBreak nl) (h : WellFormed lines) :
    WellFormed (itemGroup nl lines) := by
  have hstart := openAt?_append_wellFormed (openAt?_groupStart hnl) h
  rw [itemGroup_eq, ← List.append_assoc, WellFormed, openAt?_append hstart, pieces?_groupEnd hnl]
  rfl

theorem tags_itemGroup (hnl : IsLineBreak nl) (h : WellFormed lines) :
    tags (itemGroup nl lines) =
      (groupElement, []) :: (tags lines).map fun y => (y.1, y.2 ++ [groupElement]) := by
  have hstart : tags ("  <ItemGroup>" ++ nl) = [(groupElement, [])] := by
    rcases hnl with rfl | rfl <;> decide +kernel
  have hend : tagsOf [groupElement] ("  </ItemGroup>" ++ nl) = [] := by
    rw [tagsOf, pieces?_groupEnd hnl]
    rfl
  have hgroup := wellFormed_itemGroup hnl h
  rw [itemGroup_eq] at hgroup ⊢
  rw [tags_edit hgroup (openAt?_groupStart hnl) h, hstart, hend, tagsOf_wellFormed h, List.append_nil]
  rfl

theorem getLast?_lineBreak (hnl : IsLineBreak nl) (s : Text) : (s ++ nl).getLast? = some '\n' := by
  rcases hnl with rfl | rfl
  · rw [List.getLast?_append]
    rfl
  · rw [List.getLast?_append]
    rfl

/-- The only closing tag in a group of lines is that of the group, on a line of its own. -/
theorem closer_itemGroup (hnl : IsLineBreak nl) (hlines : Lines lines) (hcloser : closer ∈ closers)
    {x₁ x₂ : Text} (hx : itemGroup nl lines = x₁ ++ (closer ++ x₂)) :
    closer = "</ItemGroup>" ∧ x₁ = "  <ItemGroup>" ++ nl ++ lines ++ "  " := by
  have hstart : Meets ("  <ItemGroup>" ++ nl) (lines ++ ("  </ItemGroup>" ++ nl)) :=
    meets_of_last (getLast?_lineBreak hnl _) (.inl rfl) _
  have hend : Meets lines ("  </ItemGroup>" ++ nl) := meets_of_last hlines.last (.inl rfl) _
  rw [itemGroup_eq] at hx
  rcases hstart.cases hcloser hx with ⟨rest, hfirst, -⟩ | ⟨front, rfl, hfront⟩
  · have hslash : '/' ∉ "  <ItemGroup>" ++ nl := by rcases hnl with rfl | rfl <;> decide
    exact absurd ⟨x₁, rest, by rw [List.append_assoc, ← hfirst]⟩
      (closer_not_infix_of_notMem (.inl hslash) closer hcloser)
  rcases hend.cases hcloser hfront with ⟨rest, hmiddle, -⟩ | ⟨front, rfl, hlast⟩
  · exact absurd ⟨front, rest, by rw [List.append_assoc, ← hmiddle]⟩ (hlines.noCloser closer hcloser)
  -- the only bracket behind the lines is that of the tag
  have htail : closer ++ x₂ = "</ItemGroup>" ++ nl := by
    obtain ⟨c, tag, rfl, -⟩ := closer_eq hcloser
    refine congrArg ('<' :: ·) (eq_of_cons_suffix (a := "  ") (by decide) ?_ ⟨front, hlast.symm⟩)
    rcases hnl with rfl | rfl <;> decide
  obtain rfl : front = "  ".toList := by
    rw [htail] at hlast
    exact (List.append_cancel_right hlast).symm
  refine ⟨?_, (List.append_assoc _ _ _).symm⟩
  simp only [closers, List.mem_cons, List.not_mem_nil, or_false] at hcloser
  rcases hcloser with rfl | rfl
  · rfl
  · have hsecond : some 'P' = some 'I' := congrArg (·[2]?) htail
    exact absurd hsecond (by decide)

/-- That line starts in the group. -/
theorem lineFits_itemGroup (hnl : IsLineBreak nl) (hlines : Lines lines) (ha : openAt? a = some within)
    (hcloser : closer ∈ closers) {x₁ x₂ : Text} (hx : itemGroup nl lines = x₁ ++ (closer ++ x₂)) :
    LineFits closer (a ++ x₁) := by
  obtain ⟨rfl, rfl⟩ := closer_itemGroup hnl hlines hcloser hx
  have hopen : openAt? (a ++ ("  <ItemGroup>" ++ nl)) = some (groupElement :: within) := by
    obtain ⟨ps, hps, hnest⟩ := Option.bind_eq_some_iff.mp (openAt?_groupStart hnl)
    rw [openAt?_append ha, hps]
    exact nest?_outer hnest within
  have hfits : LineFits "</ItemGroup>" (a ++ ("  <ItemGroup>" ++ nl) ++ (lines ++ "  ".toList)) :=
    lineFits_behind hopen hlines.wellFormed hlines.last (by decide) List.mem_cons_self
  simpa only [List.append_assoc] using hfits

/-! ## What is new -/

/-- The tags of a text are old ones and new ones: the given ones, each in an item group, and item groups
directly in the project. -/
def Adds (new : List Text) (old : List (Text × List Text)) (out : Text) : Prop :=
  ∃ groups placed, (tags out).Perm (groups ++ placed ++ old) ∧
    (∀ x ∈ groups, x = (groupElement, [projectElement])) ∧
    (placed.map Prod.fst).Perm new ∧ ∀ x ∈ placed, groupElement ∈ x.2

theorem Adds.refl (t : Text) : Adds [] (tags t) t :=
  ⟨[], [], .refl _, by simp, .refl _, by simp⟩

theorem Adds.trans {new new' : List Text} {old : List (Text × List Text)} {mid : Text}
    (h : Adds new old mid) (h' : Adds new' (tags mid) out) : Adds (new ++ new') old out := by
  obtain ⟨groups, placed, hperm, hgroups, hnew, hplaced⟩ := h
  obtain ⟨groups', placed', hperm', hgroups', hnew', hplaced'⟩ := h'
  have hswap : (groups' ++ placed' ++ (groups ++ placed)).Perm
      (groups ++ groups' ++ (placed ++ placed')) := by
    refine List.perm_append_comm.trans ?_
    simp only [List.append_assoc]
    exact (List.perm_append_comm_assoc placed groups' placed').append_left groups
  refine ⟨groups ++ groups', placed ++ placed', ?_, ?_, ?_, ?_⟩
  · refine (hperm'.trans (hperm.append_left _)).trans ?_
    rw [← List.append_assoc]
    exact hswap.append_right _
  · exact fun x hx => (List.mem_append.mp hx).elim (hgroups x) (hgroups' x)
  · rw [List.map_append]
    exact hnew.append hnew'
  · exact fun x hx => (List.mem_append.mp hx).elim (hplaced x) (hplaced' x)

theorem adds_lines (h : WellFormed (a ++ b)) (ha : openAt? a = some within)
    (hgroup : groupElement ∈ within) (hlines : WellFormed lines) :
    Adds ((tags lines).map Prod.fst) (tags (a ++ b)) (a ++ (lines ++ b)) := by
  refine ⟨[], _, tags_splice h ha hlines, by simp, ?_, ?_⟩
  · rw [List.map_map]
    exact .refl _
  · intro x hx
    obtain ⟨y, -, rfl⟩ := List.mem_map.mp hx
    exact List.mem_append_right _ hgroup

theorem adds_itemGroup (h : WellFormed (a ++ b)) (ha : openAt? a = some [projectElement])
    (hnl : IsLineBreak nl) (hlines : WellFormed lines) :
    Adds ((tags lines).map Prod.fst) (tags (a ++ b)) (a ++ (itemGroup nl lines ++ b)) := by
  have hperm := tags_splice h ha (wellFormed_itemGroup hnl hlines)
  rw [tags_itemGroup hnl hlines, List.map_cons, List.map_map] at hperm
  refine ⟨[(groupElement, [projectElement])], _, hperm, by simp, ?_, ?_⟩
  · rw [List.map_map]
    exact .refl _
  · intro x hx
    obtain ⟨y, -, rfl⟩ := List.mem_map.mp hx
    simp

theorem meets_line {line : Text} (hcloser : closer ∈ closers)
    (h : a.getLast? = some '\n' ∨ line = []) (after : Text) : Meets a (line ++ (closer ++ after)) := by
  rcases h with hlast | rfl
  · exact meets_of_last hlast (.inl rfl) _
  · obtain ⟨c, tag, rfl, -⟩ := closer_eq hcloser
    exact meets_of_head (b := [] ++ _) rfl (.inr rfl) a

/-- Where lines go in a text that has room for them. -/
theorem Spacious.place {probe : Text → Option Text}
    (hprobe : TakesPiece fun t => (probe t).map fun rest => ((), rest)) (h : Spacious t)
    (lines nl : Text) :
    ∃ a x b within, t = a ++ b ∧ insert probe lines nl t = a ++ (x ++ b) ∧
      openAt? a = some within ∧ Meets a b ∧
      (x = lines ∧ groupElement ∈ within ∧ (a.getLast? = some '\n' ∨ '\n' ∉ a) ∨
        x = itemGroup nl lines ∧ within = [projectElement] ∧ (a.getLast? = some '\n' ∨
          '\n' ∉ a ∧ ∃ after, b = "</Project>" ++ after ∧ Final "</Project>" after)) := by
  rcases insert_places hprobe lines nl t with
    ⟨before, after, rfl, hinsert⟩ | ⟨before, after, hcut, hinsert⟩ | ⟨hcut, -⟩
  · obtain ⟨within, hopen, hgroup⟩ := h.starts _ List.mem_cons_self before after rfl
      fun hproject => absurd hproject (by decide)
    obtain ⟨line, hbefore, hplace, hstart⟩ := insertBeforeLastLine_at before lines
    generalize beforeLastLine before = a at hopen hbefore hplace hstart
    subst hbefore
    refine ⟨a, lines, line ++ ("</ItemGroup>" ++ after), within, List.append_assoc _ _ _, ?_, hopen,
      meets_line List.mem_cons_self (hstart.imp_right And.left) after, .inl ⟨rfl, hgroup, ?_⟩⟩
    · rw [hinsert, hplace]
      simp only [List.append_assoc]
    · exact hstart.imp_right fun hnone hmem => hnone.2 (List.mem_append_left line hmem)
  · have hfinal : Final "</Project>" after := fun _ => not_infix_of_cutLast? (by decide) hcut
    obtain rfl := eq_of_cutLast? hcut
    obtain ⟨within, hopen, hproject⟩ := h.starts _ project_mem_closers before after rfl hfinal
    obtain ⟨line, hbefore, hplace, hstart⟩ := insertBeforeLastLine_at before (itemGroup nl lines)
    generalize beforeLastLine before = a at hopen hbefore hplace hstart
    subst hbefore
    refine ⟨a, itemGroup nl lines, line ++ ("</Project>" ++ after), within, List.append_assoc _ _ _, ?_,
      hopen, meets_line project_mem_closers (hstart.imp_right And.left) after,
      .inr ⟨rfl, hproject, hstart.imp_right ?_⟩⟩
    · rw [hinsert, hplace]
      simp only [List.append_assoc]
    · rintro ⟨rfl, hnone⟩
      exact ⟨fun hmem => hnone (List.mem_append_left [] hmem), after, rfl, hfinal⟩
  · exact absurd h.closes (cutLast?_eq_none_iff.mp hcut)

/-- Where the project is not closed on the first line, a group goes in at the start of a line. -/
theorem LaidOut.getLast?_place (h : LaidOut (a ++ b))
    (hstart : a.getLast? = some '\n' ∨
      '\n' ∉ a ∧ ∃ after, b = "</Project>" ++ after ∧ Final "</Project>" after) :
    a.getLast? = some '\n' := by
  refine hstart.resolve_right ?_
  rintro ⟨hnone, after, rfl, hfinal⟩
  exact hnone ((h.fits _ project_mem_closers a after rfl hfinal).1 rfl)

/-- **Lines that are put in** stand in an item group. A text that is laid out for them is so for the next
ones. -/
theorem Spacious.insert {probe : Text → Option Text}
    (hprobe : TakesPiece fun t => (probe t).map fun rest => ((), rest)) (h : Spacious t)
    (hnl : IsLineBreak nl) (hlines : Lines lines) :
    WellFormed (insert probe lines nl t) ∧
      Adds ((tags lines).map Prod.fst) (tags t) (insert probe lines nl t) ∧
      (LaidOut t → LaidOut (insert probe lines nl t)) := by
  obtain ⟨a, x, b, within, rfl, hinsert, hopen, hmeets, ⟨rfl, hgroup, hline⟩ | ⟨rfl, rfl, hline⟩⟩ :=
    h.place hprobe lines nl
  · have hex := exchange_lines hopen hmeets hlines.wellFormed hlines.head hlines.last
    rw [hinsert]
    refine ⟨hex.wellFormed h.wellFormed, adds_lines h.wellFormed hopen hgroup hlines.wellFormed,
      fun hlaid => hlaid.splice hex hlines.last (hline.imp_right fun hnone => ⟨hnone, hgroup⟩) ?_⟩
    intro closer hcloser x₁ x₂ heq
    exact absurd ⟨x₁, x₂, by rw [List.append_assoc, ← heq]⟩ (hlines.noCloser closer hcloser)
  · have hlast := getLast?_lineBreak hnl ("  <ItemGroup>" ++ nl ++ lines ++ "  </ItemGroup>")
    have hex := exchange_lines hopen hmeets (wellFormed_itemGroup hnl hlines.wellFormed) rfl hlast
    rw [hinsert]
    refine ⟨hex.wellFormed h.wellFormed, adds_itemGroup h.wellFormed hopen hnl hlines.wellFormed,
      fun hlaid => hlaid.splice hex hlast (.inl (hlaid.getLast?_place hline)) ?_⟩
    exact fun closer hcloser x₁ x₂ heq => lineFits_itemGroup hnl hlines hopen hcloser heq

/-! ## Rows of elements -/

/-- Whole elements on lines of their own, with their markup: tags, none of which closes a group or the
project. -/
structure Row (x : Text) (ps : List Piece) : Prop where
  pieces : pieces? x = some ps
  nest : nest? [] ps = some []
  noOther : .other ∉ ps
  noCloser : ∀ name ∈ [groupElement, projectElement], .closing name ∉ ps
  head : x.head? = some ' '
  last : x.getLast? = some '\n'

theorem closer_spells (hcloser : closer ∈ closers) :
    ∃ inside name, closer = '<' :: (inside ++ ['>']) ∧ name ∈ [groupElement, projectElement] ∧
      Spells inside (.closing name) := by
  simp only [closers, List.mem_cons, List.not_mem_nil, or_false] at hcloser
  rcases hcloser with rfl | rfl
  · exact ⟨"/ItemGroup", groupElement, rfl, by simp,
      spells_plain (forall_mem_of_all (by decide)) (by decide)⟩
  · exact ⟨"/Project", projectElement, rfl, by simp,
      spells_plain (forall_mem_of_all (by decide)) (by decide)⟩

theorem closer_not_infix_of_pieces {ps : List Piece} (h : pieces? x = some ps) (hother : .other ∉ ps)
    (hnone : ∀ name ∈ [groupElement, projectElement], .closing name ∉ ps) :
    ∀ closer ∈ closers, ¬ closer <:+: x := by
  rintro closer hcloser ⟨before, after, rfl⟩
  obtain ⟨inside, name, rfl, hname, hspells⟩ := closer_spells hcloser
  have htext : before ++ '<' :: (inside ++ ['>']) ++ after =
      before ++ '<' :: (inside ++ '>' :: after) := by simp
  obtain ⟨front, hfront⟩ := Option.isSome_iff_exists.mp (isSome_pieces?_of_tags h hother htext)
  rw [htext, pieces?_append hfront, pieces?_piece hspells, Option.map_map] at h
  obtain ⟨back, -, rfl⟩ := Option.map_eq_some_iff.mp h
  exact hnone name hname (List.mem_append_right front List.mem_cons_self)

theorem Row.toLines {ps : List Piece} (h : Row x ps) : Lines x where
  wellFormed := by
    rw [WellFormed, openAt?, h.pieces]
    exact h.nest
  head := h.head
  last := h.last
  noCloser := closer_not_infix_of_pieces h.pieces h.noOther h.noCloser

theorem Row.tags_eq {ps : List Piece} (h : Row x ps) : tags x = tagsIn [] ps := by
  rw [tags, tagsOf, h.pieces]
  rfl

theorem Row.append {ps qs : List Piece} (hx : Row x ps) (hu : Row u qs) : Row (x ++ u) (ps ++ qs) where
  pieces := by
    rw [pieces?_append hx.pieces, hu.pieces]
    rfl
  nest := by
    rw [nest?_append, hx.nest]
    exact hu.nest
  noOther hmem := (List.mem_append.mp hmem).elim hx.noOther hu.noOther
  noCloser name hname hmem :=
    (List.mem_append.mp hmem).elim (hx.noCloser name hname) (hu.noCloser name hname)
  head := by
    rw [List.head?_append, hx.head]
    rfl
  last := by
    rw [List.getLast?_append, hu.last]
    rfl

section

variable {write : ProjectItem → Text} {ps : ProjectItem → List Piece} {l : List ProjectItem}

theorem row_flatMap (hrow : ∀ i ∈ l, Row (write i) (ps i)) (hne : l ≠ []) :
    Row (l.flatMap write) (l.flatMap ps) := by
  induction l with
  | nil => exact absurd rfl hne
  | cons i l ih =>
      rw [List.forall_mem_cons] at hrow
      rw [List.flatMap_cons, List.flatMap_cons]
      by_cases hl : l = []
      · subst hl
        simpa using hrow.1
      · exact hrow.1.append (ih hrow.2 hl)

theorem tagsIn_flatMap (hrow : ∀ i ∈ l, Row (write i) (ps i)) :
    tagsIn [] (l.flatMap ps) = l.flatMap fun i => tagsIn [] (ps i) := by
  induction l with
  | nil => rfl
  | cons i l ih =>
      rw [List.forall_mem_cons] at hrow
      rw [List.flatMap_cons, List.flatMap_cons, tagsIn_append hrow.1.nest, ih hrow.2]

theorem Adds.perm {new new' : List Text} {old : List (Text × List Text)} (h : Adds new old out)
    (hperm : new.Perm new') : Adds new' old out := by
  obtain ⟨groups, placed, htags, hgroups, hnew, hplaced⟩ := h
  exact ⟨groups, placed, htags, hgroups, hnew.trans hperm, hplaced⟩

/-- The tags with which the elements of items start. -/
def rowTags (ps : ProjectItem → List Piece) (l : List ProjectItem) : List Text :=
  l.flatMap fun i => (tagsIn [] (ps i)).map Prod.fst

/-- The text after the lines for the items of a kind were put in. -/
def putKind (write : ProjectItem → Text) (l : List ProjectItem) (nl t : Text) (kind : ItemKind) : Text :=
  if linesOf write l kind = [] then t
  else insert (takeOpening? kind.element) (linesOf write l kind) nl t

theorem insertItems_eq (write : ProjectItem → Text) (l : List ProjectItem) (nl t : Text) :
    insertItems write l nl t = putKind write l nl (putKind write l nl t .compile) .include_ :=
  rfl

theorem Spacious.putKind (h : Spacious t) (hnl : IsLineBreak nl) (hrow : ∀ i ∈ l, Row (write i) (ps i))
    (kind : ItemKind) :
    WellFormed (putKind write l nl t kind) ∧
      Adds (rowTags ps (l.filter (·.kind = kind))) (tags t) (putKind write l nl t kind) ∧
      (LaidOut t → LaidOut (putKind write l nl t kind)) := by
  unfold ProjectFile.putKind
  have hkind : ∀ i ∈ l.filter (·.kind = kind), Row (write i) (ps i) :=
    fun i hi => hrow i (List.mem_filter.mp hi).1
  by_cases hnil : l.filter (·.kind = kind) = []
  · have hlines : linesOf write l kind = [] := by rw [linesOf, hnil]; rfl
    rw [if_pos hlines, hnil]
    exact ⟨h.wellFormed, Adds.refl t, id⟩
  · have hlines := row_flatMap hkind hnil
    have hne : linesOf write l kind ≠ [] := by
      intro heq
      have hhead := hlines.head
      rw [← linesOf, heq] at hhead
      cases hhead
    obtain ⟨hout, hadds, hlaid⟩ := h.insert takesPiece_takeOpening? hnl hlines.toLines
    rw [hlines.tags_eq, tagsIn_flatMap hkind, List.map_flatMap] at hadds
    rw [if_neg hne]
    exact ⟨hout, hadds, hlaid⟩

/-- **The items of both kinds are put in**, and all that is put in stands in item groups. -/
theorem LaidOut.insertItems (h : LaidOut t) (hnl : IsLineBreak nl)
    (hrow : ∀ i ∈ l, Row (write i) (ps i)) :
    LaidOut (insertItems write l nl t) ∧ Adds (rowTags ps l) (tags t) (insertItems write l nl t) := by
  obtain ⟨-, hcompile, hkeeps⟩ := h.spacious.putKind hnl hrow .compile
  have hmid := hkeeps h
  obtain ⟨-, hinclude, hkeeps⟩ := hmid.spacious.putKind hnl hrow .include_
  refine ⟨hkeeps hmid, (hcompile.trans hinclude).perm ?_⟩
  -- the two kinds make up the whole list
  have hother : ∀ i : ProjectItem, decide (i.kind = .include_) = !decide (i.kind = .compile) := by
    intro i
    cases i.kind <;> rfl
  rw [rowTags, rowTags, rowTags, ← List.flatMap_append]
  simp only [hother]
  exact (List.filter_append_perm (fun i : ProjectItem => decide (i.kind = .compile)) l).flatMap_right _

/-- Items of one kind need room only once. -/
theorem Spacious.insertItems {kind : ItemKind} (h : Spacious t) (hnl : IsLineBreak nl)
    (hrow : ∀ i ∈ l, Row (write i) (ps i)) (hkind : ∀ i ∈ l, i.kind = kind) :
    WellFormed (insertItems write l nl t) ∧
      Adds (rowTags ps l) (tags t) (insertItems write l nl t) := by
  have hall : l.filter (·.kind = kind) = l :=
    List.filter_eq_self.mpr fun i hi => decide_eq_true (hkind i hi)
  have hnone : ∀ other t, other ≠ kind → ProjectFile.putKind write l nl t other = t := by
    intro other t hother
    have hnil : l.filter (·.kind = other) = [] :=
      List.filter_eq_nil_iff.mpr fun i hi => by simpa [hkind i hi] using Ne.symm hother
    exact if_pos (by rw [linesOf, hnil]; rfl)
  obtain ⟨hout, hadds, -⟩ := h.putKind hnl hrow kind
  rw [hall] at hadds
  rw [insertItems_eq]
  cases kind with
  | compile =>
      rw [hnone .include_ _ nofun]
      exact ⟨hout, hadds⟩
  | include_ =>
      rw [hnone .compile t nofun]
      exact ⟨hout, hadds⟩

end

/-! ## The lines of items -/

/-- A path that can stand between quotes in a tag. -/
def Quotable (path : Text) : Prop :=
  '"' ∉ path ∧ '<' ∉ path

/-- The tag with which the element of an item starts. -/
def itemTag (i : ProjectItem) : Text :=
  i.kind.element ++ (" Include=" ++ ('"' :: (i.path ++ ['"'])))

variable {i : ProjectItem}

theorem takeTag?_itemTag (h : Quotable i.path) {tail : Text} (htail : ∀ c ∈ tail, c ∉ ("<>\"'" : Text))
    (s : Text) : takeTag? none (itemTag i ++ tail ++ '>' :: s) = some (itemTag i ++ tail, s) := by
  have helement : ∀ c ∈ i.kind.element ++ " Include=".toList, c ∉ ("<>\"'" : Text) := by
    cases i.kind <;> exact forall_mem_of_all (by decide)
  have htext : itemTag i ++ tail ++ '>' :: s = i.kind.element ++ " Include=".toList ++
      ('"' :: (i.path ++ '"' :: (tail ++ '>' :: s))) := by simp [itemTag]
  rw [htext, takeTag?_plain helement, takeTag?_quoted h.1 h.2, takeTag?_plain htail, takeTag?,
    if_neg (by decide), if_pos ⟨rfl, rfl⟩]
  simp [itemTag]

theorem exists_itemTag_eq (i : ProjectItem) :
    ∃ r, itemTag i = 'C' :: r ∧ (itemTag i).getLast? = some '"' := by
  obtain ⟨name, hname⟩ := exists_element_eq i.kind
  refine ⟨name ++ (" Include=" ++ ('"' :: (i.path ++ ['"']))), by rw [itemTag, hname]; rfl, ?_⟩
  have htext : itemTag i = i.kind.element ++ (" Include=" ++ ('"' :: i.path)) ++ ['"'] := by
    simp [itemTag]
  rw [htext, List.getLast?_concat]

theorem spells_itemTag (h : Quotable i.path) : Spells (itemTag i) (.opening (itemTag i)) := by
  have hnil : ∀ c ∈ ([] : Text), c ∉ ("<>\"'" : Text) := by simp
  have htag := takeTag?_itemTag h hnil
  obtain ⟨r, hr, hlast⟩ := exists_itemTag_eq i
  have htrim : (itemTag i).trimEnd = itemTag i := trimEnd_eq_self fun c hc => by
    rw [hlast] at hc
    cases hc
    decide
  simp only [List.append_nil] at htag
  rw [hr] at htag hlast htrim ⊢
  refine spells_of_tag (by decide) htag ?_
  rw [ofTag?, if_neg (by decide), if_neg (by decide), if_neg (by rw [hlast]; decide), htrim,
    if_neg (by rw [hlast]; decide)]

theorem spells_singleTag (h : Quotable i.path) : Spells (itemTag i ++ " /") (.single (itemTag i)) := by
  have hend : ∀ c ∈ (" /" : Text), c ∉ ("<>\"'" : Text) := forall_mem_of_all (by decide)
  have htag := takeTag?_itemTag h hend
  obtain ⟨r, hr, hlast⟩ := exists_itemTag_eq i
  have hslash : (itemTag i ++ " /".toList).getLast? = some '/' := by
    rw [List.getLast?_append]
    rfl
  have hsingle : Text.trimEnd (itemTag i ++ " /".toList).dropLast = itemTag i := by
    have htext : itemTag i ++ " /".toList = itemTag i ++ " ".toList ++ ['/'] := by simp
    rw [htext, List.dropLast_concat]
    refine trimEnd_append_blanks isBlank_of_mem_space fun c hc => ?_
    rw [hlast] at hc
    cases hc
    decide
  rw [hr] at htag hslash hsingle ⊢
  refine spells_of_tag (by decide) htag ?_
  show ofTag? ('C' :: (r ++ " /".toList)) = _
  rw [List.cons_append] at hslash hsingle
  rw [ofTag?, if_neg (by decide), if_neg (by decide), if_pos hslash, hsingle]

theorem opening_append_path (i : ProjectItem) (rest : Text) :
    opening i.kind.element " " ++ (i.path ++ '"' :: rest) = '<' :: (itemTag i ++ rest) := by
  unfold opening itemTag
  simp only [List.append_assoc, List.cons_append, List.nil_append]
  rfl

theorem row_itemLine (hnl : IsLineBreak nl) (h : Quotable i.path) :
    Row (itemLine nl i) [.single (itemTag i)] where
  pieces := by
    have htext : itemLine nl i = "    " ++ ('<' :: (itemTag i ++ " /" ++ '>' :: (nl ++ []))) := by
      rw [itemLine_eq, opening_append_path, List.append_nil, List.append_assoc]
      rfl
    rw [htext, pieces?_of_notMem (by decide), pieces?_piece (spells_singleTag h),
      pieces?_of_notMem hnl.notMem, pieces?_nil]
    rfl
  nest := rfl
  noOther := by simp
  noCloser := by simp
  head := rfl
  last := getLast?_lineBreak hnl _

def filterElement : Text := "Filter"

/-- The markup of an item in the filter for generated files. -/
def filteredPieces (i : ProjectItem) : List Piece :=
  [.opening (itemTag i), .opening filterElement, .closing filterElement, .closing i.kind.element]

theorem tagName_element {gap : Text} (hgap : Gap gap) (kind : ItemKind) (rest : Text) :
    tagName (kind.element ++ (gap ++ rest)) = kind.element := by
  have hname : ∀ c ∈ kind.element, (!isBlank c) = true := by
    cases kind <;> exact forall_mem_of_all (by decide)
  obtain ⟨c, gap, rfl⟩ := List.exists_cons_of_ne_nil hgap.1
  have hblank : (!isBlank c) = false := by rw [hgap.2 c List.mem_cons_self]; rfl
  rw [tagName, List.takeWhile_append_of_pos hname, List.cons_append, List.takeWhile_cons, hblank]
  exact List.append_nil _

theorem tagName_itemTag (i : ProjectItem) : tagName (itemTag i) = i.kind.element :=
  tagName_element gap_space i.kind ("Include=" ++ ('"' :: (i.path ++ ['"'])))

theorem pieces?_filteredElement (hnl : IsLineBreak nl) (h : Quotable i.path) :
    pieces? (filteredElement i nl) = some (filteredPieces i) := by
  have htext : filteredElement i nl = '<' :: (itemTag i ++ '>' :: filteredRest i.kind nl) := by
    have hopening := opening_append_path i ('>' :: filteredRest i.kind nl)
    rw [← hopening, filteredElement_eq]
    unfold openingTag
    simp only [List.append_assoc, List.cons_append, List.nil_append]
  have hrest : pieces? (filteredRest i.kind nl) =
      some [.opening filterElement, .closing filterElement, .closing i.kind.element] := by
    rcases hnl with rfl | rfl <;> cases i.kind <;> decide +kernel
  rw [htext, pieces?_piece (spells_itemTag h), hrest]
  rfl

theorem nest?_filteredPieces (i : ProjectItem) : nest? [] (filteredPieces i) = some [] := by
  have hfilter : tagName filterElement = filterElement := by decide
  have hopen : nest? [] [.opening (itemTag i), .opening filterElement] =
      some [filterElement, i.kind.element] := by
    rw [← tagName_itemTag i]
    exact congrArg (fun name => some [name, tagName (itemTag i)]) hfilter
  have hclose : nest? [filterElement, i.kind.element]
      [.closing filterElement, .closing i.kind.element] = some [] := by
    simp [step?, nest?]
  have hsplit : filteredPieces i = [.opening (itemTag i), .opening filterElement] ++
      [.closing filterElement, .closing i.kind.element] := rfl
  rw [hsplit, nest?_append, hopen, Option.bind_some, hclose]

theorem notMem_filteredPieces (i : ProjectItem) :
    .other ∉ filteredPieces i ∧
      ∀ name ∈ [groupElement, projectElement], .closing name ∉ filteredPieces i := by
  have hnames : ∀ kind : ItemKind, ∀ name ∈ [groupElement, projectElement],
      name ≠ filterElement ∧ name ≠ kind.element := by
    intro kind
    cases kind <;> decide
  refine ⟨by simp [filteredPieces], fun name hname => ?_⟩
  simp [filteredPieces, hnames i.kind name hname]

theorem row_filteredLine (hnl : IsLineBreak nl) (h : Quotable i.path) :
    Row (filteredLine nl i) (filteredPieces i) where
  pieces := by
    rw [filteredLine, pieces?_of_notMem (by decide), pieces?_append (pieces?_filteredElement hnl h),
      ← List.append_nil nl, pieces?_of_notMem hnl.notMem, pieces?_nil]
    simp
  nest := nest?_filteredPieces i
  noOther := (notMem_filteredPieces i).1
  noCloser := (notMem_filteredPieces i).2
  head := rfl
  last := by
    rw [filteredLine, ← List.append_assoc]
    exact getLast?_lineBreak hnl _

theorem row_declaration (hnl : IsLineBreak nl) : Row (declaration nl)
    [.opening "Filter Include=\"Generated\"", .opening "UniqueIdentifier", .closing "UniqueIdentifier",
      .closing filterElement] where
  pieces := by rcases hnl with rfl | rfl <;> decide +kernel
  nest := by decide
  noOther := by decide
  noCloser := by decide
  head := rfl
  last := getLast?_lineBreak hnl _

end Registrar.ProjectFile
