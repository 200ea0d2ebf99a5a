import Registrar.Proofs.NormalTypes

/-!
# The canonical form of a type name

A type name is normalized in three passes: its words are joined by blanks, and then the blanks before each
of the two marks go. `squeeze` is one pass that does the same (`normalize_eq_squeeze`), because the removal
of the blanks before a mark is a pass with one mark more (`attach_squeeze`). What this pass has seen of a
text is told by one bit: whether white space has been passed since the last other character. So white
space next to white space makes no difference, and neither does white space before a mark, where the bit is
not asked for.

What the normal form looks like is read off a tidy text, around each white space in it
(`Tidy.around_blank`).
-/

namespace Registrar.TypeName

open Text

/-! ## White space that does not count -/

/-- One pass over a text that leaves white space out. Where some has been passed, as `gap` says, a blank
stands before the next character, unless that is one of `marks`. -/
def squeeze (marks : List Char) : (gap : Bool) → Text → Text
  | _, [] => []
  | gap, c :: r =>
    if isBlank c then squeeze marks true r
    else if gap && !marks.contains c then ' ' :: c :: squeeze marks false r
    else c :: squeeze marks false r

section

variable {marks : List Char} {mark : Char} {gap : Bool}

theorem squeeze_blank {c : Char} (hc : isBlank c = true) (r : Text) :
    squeeze marks gap (c :: r) = squeeze marks true r :=
  if_pos hc

theorem squeeze_solid {c : Char} (hc : isBlank c = false) (r : Text) :
    squeeze marks false (c :: r) = c :: squeeze marks false r := by
  simp [squeeze, hc]

/-- Removing the blanks before a mark is passing over the text with one mark more. -/
theorem attach_squeeze (mark : Char) (marks : List Char) (gap : Bool) (t : Text) :
    attach mark (squeeze marks gap t) = squeeze (mark :: marks) gap t := by
  induction t generalizing gap with
  | nil => rfl
  | cons c r ih =>
      by_cases hc : isBlank c = true
      · rw [squeeze_blank hc, squeeze_blank hc, ih]
      · have hsolid : isBlank c = false := by simpa using hc
        have hstep : attach mark (c :: squeeze marks false r) = c :: squeeze (mark :: marks) false r := by
          rw [attach_cons (ne_space_of_isBlank_eq_false hsolid), ih]
        rw [squeeze, squeeze, if_neg hc, if_neg hc]
        by_cases hgap : (gap && !marks.contains c) = true
        · rw [if_pos hgap, attach, hstep]
          by_cases hmark : c = mark
          · simp [hmark]
          · have hcontains : (mark :: marks).contains c = marks.contains c := by simp [hmark]
            rw [if_neg fun h => hmark (Option.some.inj h.2), hcontains, if_pos hgap]
        · have hless : ¬ (gap && !(mark :: marks).contains c) = true := by
            simp only [List.contains_cons]
            grind
          rw [if_neg hgap, if_neg hless, hstep]

/-- The words of a text with a blank between them, told by one pass over the text. Behind a gap every word
has a blank before it. -/
theorem squeeze_nil_eq (t : Text) :
    ∃ first others, splitWhere isBlank t = first :: others ∧
      squeeze [] false t = first ++ (others.filter (· ≠ [])).flatMap (" ".toList ++ ·) ∧
      squeeze [] true t = ((first :: others).filter (· ≠ [])).flatMap (" ".toList ++ ·) := by
  induction t with
  | nil => exact ⟨[], [], rfl, rfl, rfl⟩
  | cons c r ih =>
      obtain ⟨first, others, hsplit, hjoined, hspaced⟩ := ih
      by_cases hc : isBlank c = true
      · refine ⟨[], first :: others, ?_, ?_, ?_⟩
        · rw [splitWhere, if_pos hc, hsplit]
        · rw [squeeze_blank hc, hspaced, List.nil_append]
        · rw [squeeze_blank hc, hspaced]
          rfl
      · have hsolid : isBlank c = false := by simpa using hc
        refine ⟨c :: first, others, ?_, ?_, ?_⟩
        · rw [splitWhere, if_neg hc, hsplit]
        · rw [squeeze_solid hsolid, hjoined, List.cons_append]
        · rw [List.filter_cons_of_pos (by simp), List.flatMap_cons, squeeze, if_neg hc, hjoined]
          rfl

/-- At its front, a text is passed over from its first word on. -/
theorem joinWith_words_eq_squeeze (t : Text) :
    joinWith " " t.words = squeeze [] false t.trimStart := by
  obtain ⟨blanks, hfront, hblanks⟩ := exists_blanks_trimStart t
  have hwords := words_blanks_append hblanks t.trimStart
  rw [← hfront] at hwords
  rw [hwords]
  cases htrim : t.trimStart with
  | nil => rfl
  | cons c r =>
      have hc := isBlank_eq_false_of_trimStart htrim
      obtain ⟨first, others, hsplit, hjoined, -⟩ := squeeze_nil_eq r
      have hpieces : words (c :: r) = (c :: first) :: others.filter (· ≠ []) := by
        rw [words, splitWhere, hsplit, hc]
        rfl
      rw [hpieces, joinWith_cons, squeeze_solid hc, hjoined, List.cons_append]

/-- **The normal form in one pass.** -/
theorem normalize_eq_squeeze (t : Text) : normalize t = squeeze typeMarks false t.trimStart := by
  rw [normalize, joinWith_words_eq_squeeze, attach_squeeze, attach_squeeze]
  rfl

/-- What stands in front of a text matters for the pass over it only by the white space at its end. -/
theorem exists_squeeze_append (marks : List Char) (gap : Bool) (s : Text) :
    ∃ gap', ∀ t, squeeze marks gap (s ++ t) = squeeze marks gap s ++ squeeze marks gap' t := by
  induction s generalizing gap with
  | nil => exact ⟨gap, fun t => rfl⟩
  | cons c r ih =>
      by_cases hc : isBlank c = true
      · obtain ⟨gap', h⟩ := ih true
        refine ⟨gap', fun t => ?_⟩
        rw [List.cons_append, squeeze_blank hc, squeeze_blank hc, h]
      · obtain ⟨gap', h⟩ := ih false
        refine ⟨gap', fun t => ?_⟩
        rw [List.cons_append, squeeze, squeeze, if_neg hc, if_neg hc, h]
        split <;> rfl

/-- White space before a mark leaves no trace. -/
theorem squeeze_mark (hmark : mark ∈ marks) (hsolid : isBlank mark = false) {blanks : Text}
    (hblanks : ∀ c ∈ blanks, isBlank c = true) (gap : Bool) (r : Text) :
    squeeze marks gap (blanks ++ mark :: r) = mark :: squeeze marks false r := by
  induction blanks generalizing gap with
  | nil => simp [squeeze, hsolid, hmark]
  | cons c blanks ih =>
      obtain ⟨hc, hrest⟩ := List.forall_mem_cons.mp hblanks
      rw [List.cons_append, squeeze_blank hc, ih hrest]

end

/-- White space next to white space changes nothing, on either side of it. -/
theorem normalize_widen {extra : Text} (hextra : ∀ c ∈ extra, isBlank c = true) {c : Char}
    (hc : isBlank c = true) (front back : Text) :
    normalize (front ++ extra ++ c :: back) = normalize (front ++ c :: back) ∧
      normalize (front ++ c :: (extra ++ back)) = normalize (front ++ c :: back) := by
  constructor
  · rw [normalize, words_append_blank hc, words_append_blanks hextra, ← words_append_blank hc,
      ← normalize]
  · rw [normalize, words_append_blank hc, words_blanks_append hextra, ← words_append_blank hc,
      ← normalize]

/-- What stands in front of a text goes into its normal form as it is, and matters for the rest only by
the white space at its end; white space alone does not matter at all. -/
theorem normalize_append (front : Text) :
    (∀ t, normalize (front ++ t) = normalize t) ∨
      ∃ gap, ∀ t, normalize (front ++ t) = normalize front ++ squeeze typeMarks gap t := by
  obtain ⟨blanks, hfront, hblanks⟩ := exists_blanks_trimStart front
  cases htrim : front.trimStart with
  | nil =>
      left
      intro t
      rw [htrim, List.append_nil] at hfront
      rw [hfront, normalize, words_blanks_append hblanks, ← normalize]
  | cons c r =>
      right
      have hc := isBlank_eq_false_of_trimStart htrim
      obtain ⟨gap, happend⟩ := exists_squeeze_append typeMarks false front.trimStart
      refine ⟨gap, fun t => ?_⟩
      have hlonger : (front ++ t).trimStart = front.trimStart ++ t := by
        rw [htrim] at hfront
        rw [htrim, hfront, List.append_assoc]
        exact trimStart_blanks_append hblanks hc (r ++ t)
      rw [normalize_eq_squeeze, normalize_eq_squeeze, hlonger, happend]

/-- White space before a mark changes nothing. -/
theorem normalize_before_mark {mark : Char} (hmark : mark ∈ typeMarks) {extra : Text}
    (hextra : ∀ c ∈ extra, isBlank c = true) (front back : Text) :
    normalize (front ++ extra ++ mark :: back) = normalize (front ++ mark :: back) := by
  have hsolid : isBlank mark = false := by
    have hmarks : ∀ c ∈ typeMarks, isBlank c = false := forall_mem_of_all (by decide)
    exact hmarks mark hmark
  rw [List.append_assoc]
  rcases normalize_append front with hfront | ⟨gap, hfront⟩
  · rw [hfront, hfront, normalize, words_blanks_append hextra, ← normalize]
  · have hbare := squeeze_mark hmark hsolid isBlank_of_mem_nil gap back
    rw [List.nil_append] at hbare
    rw [hfront, hfront, squeeze_mark hmark hsolid hextra, hbare]

/-! ## The canonical form -/

theorem Continues.around_blank {marks : List Char} {front back : Text} {c : Char}
    (h : Continues marks (front ++ c :: back)) (hc : isBlank c = true) :
    c = ' ' ∧ ∃ d rest, back = d :: rest ∧ isBlank d = false ∧ d ∉ marks := by
  generalize ht : front ++ c :: back = t at h
  induction h generalizing front with
  | nil => simp at ht
  | @solid e r he _ ih =>
      cases front with
      | nil =>
          obtain ⟨rfl, -⟩ := List.cons.inj ht
          rw [hc] at he
          cases he
      | cons _ front => exact ih (List.cons.inj ht).2
  | @spaced e r he hmark _ ih =>
      match front with
      | [] =>
          obtain ⟨rfl, rfl⟩ := List.cons.inj ht
          exact ⟨rfl, e, r, rfl, he, hmark⟩
      | [_] =>
          obtain ⟨rfl, -⟩ := List.cons.inj (List.cons.inj ht).2
          rw [hc] at he
          cases he
      | _ :: _ :: front => exact ih (List.cons.inj (List.cons.inj ht).2).2

/-- White space in a tidy text is a blank, with something else before it, and behind it something else
that is none of the marks. -/
theorem Tidy.around_blank {marks : List Char} {front back : Text} {c : Char}
    (h : Tidy marks (front ++ c :: back)) (hc : isBlank c = true) :
    front ≠ [] ∧ c = ' ' ∧ ∃ d rest, back = d :: rest ∧ isBlank d = false ∧ d ∉ marks := by
  generalize ht : front ++ c :: back = t at h
  cases h with
  | nil => simp at ht
  | @cons e r he hr =>
      cases front with
      | nil =>
          obtain ⟨rfl, -⟩ := List.cons.inj ht
          rw [hc] at he
          cases he
      | cons _ front =>
          obtain ⟨-, rfl⟩ := List.cons.inj ht
          exact ⟨List.cons_ne_nil _ _, hr.around_blank hc⟩

/-- White space only as single blanks between other characters, and not before a `*` or `&`. -/
structure WellSpaced (t : Text) : Prop where
  starts : ∀ c, t.head? = some c → isBlank c = false
  ends : ∀ c, t.getLast? = some c → isBlank c = false
  single : ∀ front c d back, t = front ++ c :: d :: back → ¬ (isBlank c = true ∧ isBlank d = true)
  plain : ∀ c ∈ t, isBlank c = true → c = ' '
  attached : ∀ front c back, t = front ++ ' ' :: c :: back → c ≠ '*' ∧ c ≠ '&'

theorem Tidy.wellSpaced {t : Text} (h : Tidy typeMarks t) : WellSpaced t where
  starts c hc := by
    obtain ⟨rest, rfl⟩ := List.head?_eq_some_iff.mp hc
    have hfront : Tidy typeMarks ([] ++ c :: rest) := h
    apply Bool.eq_false_iff.mpr
    intro hblank
    exact (hfront.around_blank hblank).1 rfl
  ends c hc := by
    obtain ⟨front, rfl⟩ := List.getLast?_eq_some_iff.mp hc
    apply Bool.eq_false_iff.mpr
    intro hblank
    obtain ⟨-, -, d, rest, hback, -⟩ := h.around_blank hblank
    cases hback
  single front c d back ht hblanks := by
    subst ht
    obtain ⟨-, -, e, rest, hback, he, -⟩ := h.around_blank hblanks.1
    cases hback
    rw [hblanks.2] at he
    cases he
  plain c hmem hblank := by
    obtain ⟨front, back, rfl⟩ := List.append_of_mem hmem
    exact (h.around_blank hblank).2.1
  attached front c back ht := by
    subst ht
    obtain ⟨-, -, d, rest, hback, -, hmark⟩ := h.around_blank (by decide)
    cases hback
    have hne : ∀ mark ∈ typeMarks, c ≠ mark := fun mark hmem heq => hmark (heq ▸ hmem)
    exact ⟨hne '*' (by decide), hne '&' (by decide)⟩

/-- **The normal form is canonical.** Normalizing again changes nothing. The normal form has white space
only as single blanks between other characters and not before a `*` or `&`, and apart from white space it
is the text. More white space next to white space, on either side of it, does not change it, nor does
white space before a `*` or `&`, be it the first character or not. -/
theorem normalize_canonical (t : Text) :
    normalize (normalize t) = normalize t ∧ WellSpaced (normalize t) ∧
    solid (normalize t) = solid t ∧
    (∀ front back extra c, t = front ++ c :: back → isBlank c = true →
      (∀ d ∈ extra, isBlank d = true) →
      normalize (front ++ extra ++ c :: back) = normalize t ∧
        normalize (front ++ c :: (extra ++ back)) = normalize t) ∧
    ∀ front back extra mark, t = front ++ mark :: back → mark = '*' ∨ mark = '&' →
      (∀ d ∈ extra, isBlank d = true) →
      normalize (front ++ extra ++ mark :: back) = normalize t := by
  refine ⟨normalize_normalize t, (tidy_normalize t).wellSpaced, solid_normalize t, ?_, ?_⟩
  · intro front back extra c ht hc hextra
    rw [ht]
    exact normalize_widen hextra hc front back
  · intro front back extra mark ht hmark hextra
    have hmem : mark ∈ typeMarks := by
      rcases hmark with rfl | rfl <;> decide
    rw [ht]
    exact normalize_before_mark hmem hextra front back

/-- Two characters of white space, one of them three bytes long, beside a tab and before a mark. -/
theorem normalize_canonical_spread :
    let t : Text := "const\tT* &"
    let extra : Text := "\u3000\n"
    (t = "const".toList ++ '\t' :: "T* &".toList ∧ t = "const\tT".toList ++ '*' :: " &".toList ∧
      isBlank '\t' = true ∧ ∀ d ∈ extra, isBlank d = true) ∧
    normalize t = "const T*&" ∧
    normalize ("const" ++ extra ++ '\t' :: "T* &".toList) = "const T*&" ∧
    normalize ("const" ++ '\t' :: (extra ++ "T* &")) = "const T*&" ∧
    normalize ("const\tT" ++ extra ++ '*' :: " &".toList) = "const T*&" := by
  intro t extra
  have htab : t = "const".toList ++ '\t' :: "T* &".toList := by decide +kernel
  have hmark : t = "const\tT".toList ++ '*' :: " &".toList := by decide +kernel
  have hblank : isBlank '\t' = true := by decide
  have hextra : ∀ d ∈ extra, isBlank d = true := List.all_eq_true.mp (by decide +kernel)
  have hnormal : normalize t = "const T*&" := by decide +kernel
  obtain ⟨-, -, -, hwiden, hbefore⟩ := normalize_canonical t
  obtain ⟨hleft, hright⟩ := hwiden _ _ extra '\t' htab hblank hextra
  have hspread := hbefore _ _ extra '*' hmark (Or.inl rfl) hextra
  exact ⟨⟨htab, hmark, hblank, hextra⟩, hnormal, hleft.trans hnormal, hright.trans hnormal,
    hspread.trans hnormal⟩

end Registrar.TypeName
