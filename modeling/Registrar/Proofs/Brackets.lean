import Registrar.Text.Bracket

/-!
# Brackets that match

The closer that matches a pending opener is found by counting. This module says what the count
finds, with counts over the front parts of a text (`closing?_eq_some_iff`), and in particular that a
balanced text is read up to the closer behind it (`parenthesised?_append`).
-/

namespace Registrar.Text

variable {opener closer : Char}

/-- With `depth` openers pending, no front part of the text closes more brackets than are open, and
the whole text closes them all. -/
structure Closes (opener closer : Char) (depth : Nat) (t : Text) : Prop where
  fronts : ∀ front, front <+: t → front.count closer ≤ depth + front.count opener
  whole : t.count closer = depth + t.count opener

/-- A text whose openers and closers match. -/
def Balanced (opener closer : Char) (t : Text) : Prop :=
  Closes opener closer 0 t

theorem closes_nil_iff {depth : Nat} : Closes opener closer depth [] ↔ depth = 0 := by
  constructor
  · intro h
    simpa using h.whole.symm
  · intro hgiven
    obtain rfl := hgiven
    exact ⟨by simp, by simp⟩

/-- The front parts of a text with one more character are the empty one and those that start with
the character. -/
theorem closes_cons_iff_fronts {depth : Nat} {c : Char} {t : Text} :
    Closes opener closer depth (c :: t) ↔
      (∀ front, front <+: t →
        (c :: front).count closer ≤ depth + (c :: front).count opener) ∧
      (c :: t).count closer = depth + (c :: t).count opener := by
  constructor
  · intro h
    exact ⟨fun front hf => h.fronts _ ((List.prefix_cons_inj c).mpr hf), h.whole⟩
  · intro hgiven
    obtain ⟨hfronts, hwhole⟩ := hgiven
    refine ⟨fun front hf => ?_, hwhole⟩
    rcases List.prefix_cons_iff.mp hf with rfl | ⟨rest, rfl, hrest⟩
    · simp
    · exact hfronts rest hrest

theorem closes_opener_cons (hne : opener ≠ closer) {depth : Nat} {t : Text} :
    Closes opener closer depth (opener :: t) ↔ Closes opener closer (depth + 1) t := by
  have hcount : ∀ s : Text, (opener :: s).count closer = s.count closer ∧
      (opener :: s).count opener = s.count opener + 1 := fun s => by simp [hne]
  rw [closes_cons_iff_fronts]
  constructor
  · intro hgiven
    obtain ⟨hf, hw⟩ := hgiven
    exact ⟨fun front h => by have := hf front h; grind, by grind⟩
  · intro hgiven
    obtain ⟨hf, hw⟩ := hgiven
    exact ⟨fun front h => by have := hf front h; grind, by grind⟩

theorem closes_closer_cons (hne : opener ≠ closer) {depth : Nat} {t : Text} :
    Closes opener closer depth (closer :: t) ↔ ∃ d, depth = d + 1 ∧ Closes opener closer d t := by
  have hcount : ∀ s : Text, (closer :: s).count closer = s.count closer + 1 ∧
      (closer :: s).count opener = s.count opener := fun s => by simp [hne.symm]
  rw [closes_cons_iff_fronts]
  constructor
  · intro hgiven
    obtain ⟨hf, hw⟩ := hgiven
    have hone := hf [] List.nil_prefix
    rw [(hcount []).1, (hcount []).2] at hone
    refine ⟨depth - 1, by grind, fun front h => ?_, by grind⟩
    have := hf front h
    grind
  · intro hgiven
    obtain ⟨d, rfl, hf, hw⟩ := hgiven
    exact ⟨fun front h => by have := hf front h; grind, by grind⟩

theorem closes_other_cons {depth : Nat} {c : Char} {t : Text} (hopen : c ≠ opener)
    (hclose : c ≠ closer) :
    Closes opener closer depth (c :: t) ↔ Closes opener closer depth t := by
  rw [closes_cons_iff_fronts]
  simp only [List.count_cons_of_ne hopen, List.count_cons_of_ne hclose]
  exact ⟨fun h => ⟨h.1, h.2⟩, fun h => ⟨h.fronts, h.whole⟩⟩

/-- **What counting finds.** With `depth + 1` openers pending, the text up to the closer of the first
of them closes all the others and no more, and it is followed by that closer. -/
theorem closing?_eq_some_iff (hne : opener ≠ closer) {depth : Nat} {t inner rest : Text} :
    closing? opener closer depth t = some (inner, rest) ↔
      t = inner ++ closer :: rest ∧ Closes opener closer depth inner := by
  induction t generalizing depth inner with
  | nil => simp [closing?]
  | cons c r ih =>
      -- past a character that is not the closer in question, the count goes on with `d` pending
      have hpast : ∀ d, ¬ (c = closer ∧ depth = 0) →
          (∀ tail, Closes opener closer depth (c :: tail) ↔ Closes opener closer d tail) →
          ((closing? opener closer d r).map (fun found => (c :: found.1, found.2)) =
            some (inner, rest) ↔
              c :: r = inner ++ closer :: rest ∧ Closes opener closer depth inner) := by
        intro d hc hcloses
        rw [Option.map_eq_some_iff]
        constructor
        · intro hgiven
          obtain ⟨⟨tail, rest'⟩, hfound, heq⟩ := hgiven
          cases heq
          obtain ⟨rfl, htail⟩ := ih.mp hfound
          exact ⟨rfl, (hcloses tail).mpr htail⟩
        · intro hgiven
          obtain ⟨heq, hinner⟩ := hgiven
          cases inner with
          | nil =>
              cases heq
              exact absurd ⟨rfl, closes_nil_iff.mp hinner⟩ hc
          | cons c' tail =>
              cases heq
              exact ⟨(tail, rest), ih.mpr ⟨rfl, (hcloses tail).mp hinner⟩, rfl⟩
      by_cases hopen : c = opener
      · subst hopen
        simp only [closing?, if_true]
        exact hpast _ (fun h => hne h.1) fun tail => closes_opener_cons hne
      · by_cases hclose : c = closer
        · subst hclose
          cases depth with
          | zero =>
              simp only [closing?, if_neg hopen, if_true]
              constructor
              · intro h
                cases h
                exact ⟨rfl, closes_nil_iff.mpr rfl⟩
              · intro hgiven
                obtain ⟨heq, hinner⟩ := hgiven
                cases inner with
                | nil =>
                    cases heq
                    rfl
                | cons c' tail =>
                    cases heq
                    obtain ⟨d, hd, -⟩ := (closes_closer_cons hne).mp hinner
                    omega
          | succ d =>
              simp only [closing?, if_neg hopen, if_true]
              refine hpast d (by simp) fun tail => ?_
              rw [closes_closer_cons hne]
              simp
        · simp only [closing?, if_neg hopen, if_neg hclose]
          exact hpast _ (fun h => hclose h.1) fun tail => closes_other_cons hopen hclose

/-- Just after an opener, what is found is a balanced text with the closer behind it. -/
theorem balanced?_eq_some_iff (hne : opener ≠ closer) {t inner rest : Text} :
    t.balanced? opener closer = some (inner, rest) ↔
      t = inner ++ closer :: rest ∧ Balanced opener closer inner :=
  closing?_eq_some_iff hne

/-- A text is balanced when the closer behind it is the one that is found. -/
instance (t : Text) : Decidable (Balanced '(' ')' t) :=
  decidable_of_iff ((t ++ [')']).balanced? '(' ')' = some (t, []))
    ((balanced?_eq_some_iff (by decide)).trans (and_iff_right rfl))

/-- Just after an opening parenthesis, a balanced text with a closing parenthesis behind it is what
the parentheses enclose. -/
theorem parenthesised?_append {inner : Text} (h : Balanced '(' ')' inner) (rest : Text) :
    (inner ++ ')' :: rest).parenthesised? = some (inner, rest) :=
  (balanced?_eq_some_iff (by decide)).mpr ⟨rfl, h⟩

/-- Where the closer is not found, no more brackets close than are open. -/
theorem count_le_of_closing?_eq_none (hne : opener ≠ closer) {depth : Nat} {t : Text}
    (h : closing? opener closer depth t = none) : t.count closer ≤ depth + t.count opener := by
  induction t generalizing depth with
  | nil => simp
  | cons c r ih =>
      by_cases hopen : c = opener
      · subst hopen
        simp only [closing?, if_true, Option.map_eq_none_iff] at h
        have hrest := ih h
        rw [List.count_cons_of_ne hne, List.count_cons_self]
        omega
      · by_cases hclose : c = closer
        · subst hclose
          rw [List.count_cons_self, List.count_cons_of_ne hopen]
          cases depth with
          | zero => simp [closing?, hopen] at h
          | succ d =>
              simp only [closing?, if_neg hopen, if_true, Option.map_eq_none_iff] at h
              have hrest := ih h
              omega
        · simp only [closing?, if_neg hopen, if_neg hclose, Option.map_eq_none_iff] at h
          rw [List.count_cons_of_ne hclose, List.count_cons_of_ne hopen]
          exact ih h

/-- Every opener of a balanced text closes inside the text. -/
theorem Balanced.exists_closing (hne : opener ≠ closer) {before rest : Text}
    (h : Balanced opener closer (before ++ opener :: rest)) :
    ∃ inner tail, rest = inner ++ closer :: tail ∧ Balanced opener closer inner := by
  cases hfound : rest.balanced? opener closer with
  | some found => exact ⟨found.1, found.2, (balanced?_eq_some_iff hne).mp hfound⟩
  | none =>
      have hrest := count_le_of_closing?_eq_none hne hfound
      have hbefore := h.fronts before (List.prefix_append ..)
      have hwhole := h.whole
      rw [List.count_append, List.count_append, List.count_cons_of_ne hne,
        List.count_cons_self] at hwhole
      omega

end Registrar.Text
