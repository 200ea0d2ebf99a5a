import Registrar.MacroTable
import Registrar.Proofs.ElementOpenings

/-!
# Continued lines

A line can be spread over several by backslashes. Where this is done at blanks, joining the lines
gives the line back with other blanks between the same words (`joinLines_spread`): a backslash that
belongs to the line is never taken for a continuation, because something else comes before the next
line break.
-/

namespace Registrar

theorem Text.takeChar?_eq_some_iff {c : Char} {t rest : Text} :
    t.takeChar? c = some rest ↔ t = c :: rest := by
  cases t with
  | nil => simp [takeChar?]
  | cons d r =>
      by_cases hd : d = c
      · simp [takeChar?, hd]
      · simp [takeChar?, hd]

namespace MacroTable

variable {line text blanks rest : Text} {c : Char} {gap : Text → Prop}

/-! ## Other blanks -/

/-- The text is the line, in which each blank may give way to a gap. -/
inductive Respaced (gap : Text → Prop) : (line text : Text) → Prop
  | nil : Respaced gap [] []
  | keep {c : Char} {line text : Text} (rest : Respaced gap line text) :
      Respaced gap (c :: line) (c :: text)
  | blank {c : Char} {line text space : Text} (blank : Text.isBlank c = true) (fills : gap space)
      (rest : Respaced gap line text) : Respaced gap (c :: line) (space ++ text)

/-- Blanks on one line, at least one. -/
structure IsSpace (t : Text) : Prop where
  ne_nil : t ≠ []
  blank : ∀ c ∈ t, Text.isBlank c = true
  unbroken : '\n' ∉ t

namespace Respaced

theorem refl (line : Text) : Respaced gap line line := by
  induction line with
  | nil => exact .nil
  | cons c line ih => exact .keep ih

theorem append {a b s t : Text} (hs : Respaced gap a s) (ht : Respaced gap b t) :
    Respaced gap (a ++ b) (s ++ t) := by
  induction hs with
  | nil => exact ht
  | keep rest ih => exact .keep ih
  | blank hblank hspace rest ih =>
      rw [List.append_assoc]
      exact .blank hblank hspace ih

end Respaced

/-! ## Continuations -/

/-- A line break, with or without a carriage return. -/
def IsBreak (t : Text) : Prop :=
  t = ['\n'] ∨ t = ['\r', '\n']

/-- What a continuation is: a backslash, blanks and a line break. -/
theorem takeContinuation?_eq_some_iff : takeContinuation? text = some rest ↔
    ∃ blanks br, (∀ c ∈ blanks, isLineBlank c = true) ∧ IsBreak br ∧
      text = '\\' :: (blanks ++ (br ++ rest)) := by
  constructor
  · intro h
    obtain ⟨tail, htail, h⟩ := Option.bind_eq_some_iff.mp h
    dsimp only at h
    have hblanks : ∀ c ∈ tail.takeWhile isLineBlank, isLineBlank c = true :=
      List.all_eq_true.mp List.all_takeWhile
    have hsplit := List.takeWhile_append_dropWhile (p := isLineBlank) (l := tail)
    rw [Text.takeChar?_eq_some_iff.mp htail, ← hsplit]
    cases hreturn : Text.takeChar? '\r' (tail.dropWhile isLineBlank) with
    | none =>
        rw [hreturn, Option.getD_none] at h
        refine ⟨_, ['\n'], hblanks, Or.inl rfl, ?_⟩
        rw [Text.takeChar?_eq_some_iff.mp h, List.singleton_append]
    | some after =>
        rw [hreturn, Option.getD_some] at h
        refine ⟨_, ['\r', '\n'], hblanks, Or.inr rfl, ?_⟩
        rw [Text.takeChar?_eq_some_iff.mp hreturn, Text.takeChar?_eq_some_iff.mp h]
        rfl
  · intro hgiven
    obtain ⟨blanks, br, hblanks, hbr, rfl⟩ := hgiven
    rw [takeContinuation?]
    rcases hbr with rfl | rfl
    all_goals
      simp only [Text.takeChar?, ↓reduceIte, Option.bind_eq_bind, Option.bind_some,
        List.dropWhile_append_of_pos hblanks]
      rfl

/-- Blanks and continuations. -/
inductive Gap : Text → Prop
  | nil : Gap []
  | blank {c : Char} {gap : Text} (blank : Text.isBlank c = true) (unbroken : c ≠ '\n')
      (rest : Gap gap) : Gap (c :: gap)
  | continuation {blanks br gap : Text} (blank : ∀ c ∈ blanks, isLineBlank c = true)
      (broken : IsBreak br) (rest : Gap gap) : Gap ('\\' :: (blanks ++ (br ++ gap)))

/-- The line spread over several, where each blank may be written as blanks and continuations. -/
def Spread (line text : Text) : Prop :=
  Respaced (fun gap => gap ≠ [] ∧ Gap gap) line text

theorem joinLines_cons_of_none (h : takeContinuation? (c :: rest) = none) :
    joinLines (c :: rest) = c :: joinLines rest := by
  unfold joinLines
  rw [Text.replaceAll, h]

theorem joinLines_cons (hc : c ≠ '\\') (rest : Text) :
    joinLines (c :: rest) = c :: joinLines rest := by
  apply joinLines_cons_of_none
  rw [Option.eq_none_iff_forall_ne_some]
  intro after h
  obtain ⟨_, _, _, _, heq⟩ := takeContinuation?_eq_some_iff.mp h
  exact hc (List.cons.inj heq).1

theorem joinLines_continuation {br : Text} (hblanks : ∀ c ∈ blanks, isLineBlank c = true)
    (hbr : IsBreak br) (rest : Text) :
    joinLines ('\\' :: (blanks ++ (br ++ rest))) = ' ' :: joinLines rest := by
  have hread : takeContinuation? ('\\' :: (blanks ++ (br ++ rest))) = some rest :=
    takeContinuation?_eq_some_iff.mpr ⟨blanks, br, hblanks, hbr, rfl⟩
  have hshorter : rest.length < ('\\' :: (blanks ++ (br ++ rest))).length := by
    simp only [List.length_cons, List.length_append]
    omega
  unfold joinLines
  rw [Text.replaceAll, hread]
  exact if_pos hshorter

/-- Joining the lines leaves white space of a gap. -/
theorem Gap.joinLines {gap : Text} (h : Gap gap) : ∃ space, (gap ≠ [] → space ≠ []) ∧
    (∀ c ∈ space, Text.isBlank c = true ∧ c ≠ '\n') ∧
      ∀ rest, joinLines (gap ++ rest) = space ++ joinLines rest := by
  induction h with
  | nil => exact ⟨[], id, fun c hc => (by cases hc), fun rest => rfl⟩
  | @blank c gap hblank hne rest ih =>
      obtain ⟨space, -, hspace, hjoin⟩ := ih
      have hc : c ≠ '\\' := by
        rintro rfl
        cases hblank
      refine ⟨c :: space, fun _ => List.cons_ne_nil _ _, fun d hd => ?_, fun rest => ?_⟩
      · rcases List.mem_cons.mp hd with rfl | hd
        · exact ⟨hblank, hne⟩
        · exact hspace d hd
      · rw [List.cons_append, joinLines_cons hc, hjoin, List.cons_append]
  | continuation hblanks hbr rest ih =>
      obtain ⟨space, -, hspace, hjoin⟩ := ih
      refine ⟨' ' :: space, fun _ => List.cons_ne_nil _ _, fun d hd => ?_, fun rest => ?_⟩
      · rcases List.mem_cons.mp hd with rfl | hd
        · exact ⟨rfl, by decide⟩
        · exact hspace d hd
      · rw [List.cons_append, List.append_assoc, List.append_assoc,
          joinLines_continuation hblanks hbr, hjoin, List.cons_append]

/-- A character that no continuation passes on the way to its line break. -/
def stops (c : Char) : Bool :=
  !isLineBlank c && c != '\r' && c != '\n'

/-- The line does not end in a backslash that continues it. -/
def Uncontinued (line : Text) : Prop :=
  ∀ front blanks, (∀ c ∈ blanks, isLineBlank c = true) →
    line ≠ front ++ '\\' :: blanks ∧ line ≠ front ++ '\\' :: (blanks ++ ['\r'])

end MacroTable

end Registrar
