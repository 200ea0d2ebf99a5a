import Registrar.Proofs.Words

/-!
# Type names in normal form

The normal form of a type name has no needless white space. `Tidy marks` says so without the
normalizing function: the text starts with no white space, and white space in it is a single blank
between two other characters, the second of which is none of `marks`.

One pass that removes the blanks before a mark keeps such a text tidy and adds its mark
(`Tidy.attach`), and it finds nothing to remove where its mark is already among them
(`Tidy.attach_eq_self`). So the normal form is tidy (`tidy_normalize`), tidy texts are their own
normal form (`Tidy.normalize_eq_self`), and normalizing twice is normalizing once. White space apart, the
normal form has the characters of the text (`solid_normalize`).
-/

namespace Registrar.Text

/-- The characters of a text that are no white space. -/
def solid (t : Text) : Text :=
  t.filter fun c => !isBlank c

theorem solid_append (s t : Text) : solid (s ++ t) = solid s ++ solid t :=
  List.filter_append _ _

theorem solid_joinWith_space (pieces : List Text) :
    solid (joinWith " " pieces) = solid pieces.flatten := by
  cases pieces with
  | nil => rfl
  | cons first others =>
      have hothers : solid (others.flatMap fun piece => " ".toList ++ piece) =
          solid others.flatten := by
        induction others with
        | nil => rfl
        | cons piece others ih =>
            have hspace : solid " " = [] := by decide
            rw [List.flatMap_cons, solid_append, solid_append, hspace, List.nil_append, ih,
              List.flatten_cons, solid_append]
      rw [joinWith_cons, solid_append, hothers, List.flatten_cons, solid_append]

theorem solid_flatten_words (t : Text) : solid t.words.flatten = solid t := by
  rw [words, List.flatten_filter_ne_nil, flatten_splitWhere, solid, List.filter_filter, solid]
  simp only [Bool.and_self]

end Registrar.Text

namespace Registrar.TypeName

open Text

/-- What may follow a character that is no white space in a tidy text: more of them, and single
blanks, each before a character that is neither white space nor one of `marks`. -/
inductive Continues (marks : List Char) : Text → Prop
  | nil : Continues marks []
  | solid {c : Char} {r : Text} (hc : isBlank c = false) (hr : Continues marks r) :
      Continues marks (c :: r)
  | spaced {c : Char} {r : Text} (hc : isBlank c = false) (hmark : c ∉ marks)
      (hr : Continues marks r) : Continues marks (' ' :: c :: r)

/-- A text without needless white space, and without a blank before one of `marks`. -/
inductive Tidy (marks : List Char) : Text → Prop
  | nil : Tidy marks []
  | cons {c : Char} {r : Text} (hc : isBlank c = false) (hr : Continues marks r) :
      Tidy marks (c :: r)

theorem ne_space_of_isBlank_eq_false {c : Char} (hc : isBlank c = false) : c ≠ ' ' := by
  rintro rfl
  exact absurd hc (by decide)

/-! ## Removing the blanks before a mark -/

section

variable {marks : List Char} {mark : Char} {t : Text}

theorem Continues.attach (h : Continues marks t) :
    Continues (mark :: marks) (TypeName.attach mark t) := by
  induction h with
  | nil => exact .nil
  | solid hc _ ih =>
      rw [attach_cons (ne_space_of_isBlank_eq_false hc)]
      exact .solid hc ih
  | @spaced c r hc hmark _ ih =>
      have hnext : TypeName.attach mark (c :: r) = c :: TypeName.attach mark r :=
        attach_cons (ne_space_of_isBlank_eq_false hc) r
      by_cases heq : c = mark
      · rw [TypeName.attach, if_pos ⟨rfl, congrArg some heq⟩, hnext]
        exact .solid hc ih
      · rw [TypeName.attach, if_neg fun h => heq (Option.some.inj h.2), hnext]
        exact .spaced hc (List.not_mem_cons_of_ne_of_not_mem heq hmark) ih

theorem Continues.attach_eq_self (h : Continues marks t) (hmark : mark ∈ marks) :
    TypeName.attach mark t = t := by
  induction h with
  | nil => rfl
  | solid hc _ ih => rw [attach_cons (ne_space_of_isBlank_eq_false hc), ih]
  | @spaced c r hc hfree _ ih =>
      have hne : c ≠ mark := fun heq => hfree (heq ▸ hmark)
      rw [TypeName.attach, if_neg fun h => hne (Option.some.inj h.2),
        attach_cons (ne_space_of_isBlank_eq_false hc), ih]

/-- A pass for one mark keeps a text tidy for the other marks, and makes it tidy for its own. -/
theorem Tidy.attach (h : Tidy marks t) : Tidy (mark :: marks) (TypeName.attach mark t) := by
  cases h with
  | nil => exact .nil
  | cons hc hr =>
      rw [attach_cons (ne_space_of_isBlank_eq_false hc)]
      exact .cons hc hr.attach

/-- A pass changes nothing in a text that is tidy for its mark. -/
theorem Tidy.attach_eq_self (h : Tidy marks t) (hmark : mark ∈ marks) :
    TypeName.attach mark t = t := by
  cases h with
  | nil => rfl
  | cons hc hr =>
      rw [attach_cons (ne_space_of_isBlank_eq_false hc), hr.attach_eq_self hmark]

end

/-! ## Words with a blank between them -/

section

variable {marks : List Char} {t : Text}

/-- A list of words: none is empty, and none holds white space. -/
def AreWords (pieces : List Text) : Prop :=
  ∀ word ∈ pieces, word ≠ [] ∧ ∀ c ∈ word, isBlank c = false

theorem Continues.solid_append {word : Text} (hword : ∀ c ∈ word, isBlank c = false)
    (h : Continues marks t) : Continues marks (word ++ t) := by
  induction word with
  | nil => exact h
  | cons c r ih =>
      exact .solid (hword c List.mem_cons_self) (ih fun d hd => hword d (List.mem_cons_of_mem _ hd))

theorem continues_flatMap {pieces : List Text} (h : AreWords pieces) :
    Continues [] (pieces.flatMap (" ".toList ++ ·)) := by
  induction pieces with
  | nil => exact .nil
  | cons word others ih =>
      obtain ⟨hne, hsolid⟩ := h word List.mem_cons_self
      obtain ⟨c, r, rfl⟩ := List.exists_cons_of_ne_nil hne
      have hothers := ih fun w hw => h w (List.mem_cons_of_mem _ hw)
      exact .spaced (hsolid c List.mem_cons_self) List.not_mem_nil
        (hothers.solid_append fun d hd => hsolid d (List.mem_cons_of_mem _ hd))

/-- Words with a blank between them make a tidy text. -/
theorem tidy_joinWith {pieces : List Text} (h : AreWords pieces) :
    Tidy [] (joinWith " " pieces) := by
  cases pieces with
  | nil => exact .nil
  | cons word others =>
      obtain ⟨hne, hsolid⟩ := h word List.mem_cons_self
      obtain ⟨c, r, rfl⟩ := List.exists_cons_of_ne_nil hne
      have hothers := continues_flatMap fun w hw => h w (List.mem_cons_of_mem _ hw)
      rw [joinWith_cons]
      exact .cons (hsolid c List.mem_cons_self)
        (hothers.solid_append fun d hd => hsolid d (List.mem_cons_of_mem _ hd))

theorem Continues.exists_words (h : Continues marks t) {c : Char} (hc : isBlank c = false) :
    ∃ word others, AreWords ((c :: word) :: others) ∧
      c :: t = joinWith " " ((c :: word) :: others) := by
  induction h generalizing c with
  | nil =>
      refine ⟨[], [], fun w hw => ?_, by simp [joinWith]⟩
      cases List.mem_singleton.mp hw
      exact ⟨List.cons_ne_nil _ _, fun d hd => List.mem_singleton.mp hd ▸ hc⟩
  | @solid d r hd _ ih =>
      -- `c` goes to the front of the first word
      obtain ⟨word, others, hwords, heq⟩ := ih hd
      refine ⟨d :: word, others, fun w hw => ?_, ?_⟩
      · rcases List.mem_cons.mp hw with rfl | hw
        · refine ⟨List.cons_ne_nil _ _, fun e he => ?_⟩
          rcases List.mem_cons.mp he with rfl | he
          · exact hc
          · exact (hwords _ List.mem_cons_self).2 e he
        · exact hwords w (List.mem_cons_of_mem _ hw)
      · rw [heq, joinWith_cons, joinWith_cons]
        rfl
  | @spaced d r hd _ _ ih =>
      -- `c` is a word of its own
      obtain ⟨word, others, hwords, heq⟩ := ih hd
      refine ⟨[], (d :: word) :: others, fun w hw => ?_, ?_⟩
      · rcases List.mem_cons.mp hw with rfl | hw
        · exact ⟨List.cons_ne_nil _ _, fun e he => List.mem_singleton.mp he ▸ hc⟩
        · exact hwords w hw
      · rw [heq, joinWith_cons, joinWith_cons, List.flatMap_cons]
        rfl

/-- The words of a tidy text with a blank between them are the text. -/
theorem Tidy.joinWith_words (h : Tidy marks t) : joinWith " " t.words = t := by
  cases h with
  | nil => rfl
  | cons hc hr =>
      obtain ⟨word, others, hwords, heq⟩ := hr.exists_words hc
      rw [heq, words_joinWith_space hwords]

end

/-! ## The normal form -/

/-- The marks that belong to the type they follow. -/
def typeMarks : List Char := ['&', '*']

theorem tidy_normalize (t : Text) : Tidy typeMarks (normalize t) :=
  (tidy_joinWith fun _ => of_mem_words).attach.attach

theorem Tidy.normalize_eq_self {t : Text} (h : Tidy typeMarks t) : normalize t = t := by
  rw [normalize, h.joinWith_words, h.attach_eq_self (by decide), h.attach_eq_self (by decide)]

/-- Normalizing a type name twice is normalizing it once. -/
theorem normalize_normalize (t : Text) : normalize (normalize t) = normalize t :=
  (tidy_normalize t).normalize_eq_self

theorem solid_attach (mark : Char) (t : Text) : solid (attach mark t) = solid t := by
  induction t with
  | nil => rfl
  | cons c r ih =>
      have hcons : ∀ r, solid (c :: r) = solid [c] ++ solid r := solid_append [c]
      rw [attach, hcons r]
      split
      · next hc =>
        have hblank : solid [' '] = [] := by decide
        rw [hc.1, hblank, List.nil_append, ih]
      · rw [hcons, ih]

/-- The normal form of a type name has the same characters, white space apart. -/
theorem solid_normalize (t : Text) : solid (normalize t) = solid t := by
  rw [normalize, solid_attach, solid_attach, solid_joinWith_space, solid_flatten_words]

/-- Only white space has an empty normal form. -/
theorem normalize_eq_nil_iff {t : Text} :
    normalize t = [] ↔ ∀ c ∈ t, isBlank c = true := by
  constructor
  · intro h c hc
    have hwords : t.words = [] := Decidable.byContradiction fun hne => normalize_ne_nil hne h
    rcases isBlank_or_mem_words hc with hblank | ⟨word, hword, -⟩
    · exact hblank
    · rw [hwords] at hword
      cases hword
  · intro h
    rw [normalize, words_blanks h]
    rfl

end Registrar.TypeName
