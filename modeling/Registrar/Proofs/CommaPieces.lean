import Registrar.Text.Bracket
import Registrar.Proofs.Words

/-!
# Pieces between commas

A text is cut at the commas at depth zero, where one depth counts all four pairs of brackets. What
stands in front of a text therefore matters for its pieces only by the depth that it leads to
(`splitCommas_append`): behind a text that leads back to depth zero a comma is a cut
(`splitCommas_append_comma`), and the two sides are cut on their own, as are all the pieces of a list
(`splitCommas_joinWith`).
-/

namespace Registrar.Text

variable {s t : Text} {d : Int}

/-- The change of depth that a text makes. -/
def depth : Text → Int
  | [] => 0
  | c :: t => depthStep c + depth t

@[simp] theorem depth_nil : depth [] = 0 := rfl

@[simp] theorem depth_cons (c : Char) (t : Text) : depth (c :: t) = depthStep c + depth t := rfl

@[simp] theorem depth_append (s t : Text) : depth (s ++ t) = depth s + depth t := by
  induction s with
  | nil => simp
  | cons c s ih => rw [List.cons_append, depth_cons, depth_cons, ih, Int.add_assoc]

theorem splitCommas_ne_nil (d : Int) (t : Text) : splitCommas d t ≠ [] := by
  cases t with
  | nil => exact List.cons_ne_nil _ _
  | cons c r =>
      rw [splitCommas]
      split
      · exact List.cons_ne_nil _ _
      · split
        · exact List.cons_ne_nil _ _
        · exact List.cons_ne_nil _ _

/-- The last piece of a text stands behind the others. -/
theorem exists_splitCommas_eq (d : Int) (t : Text) : ∃ init last, splitCommas d t = init ++ [last] :=
  ⟨_, _, (List.dropLast_concat_getLast (splitCommas_ne_nil d t)).symm⟩

/-- The last piece of a text goes on with the first piece of what stands behind the text. -/
theorem splitCommas_append {init rest : List Text} {last first : Text}
    (hs : splitCommas d s = init ++ [last]) (ht : splitCommas (d + depth s) t = first :: rest) :
    splitCommas d (s ++ t) = init ++ (last ++ first) :: rest := by
  induction s generalizing d init last with
  | nil =>
      obtain ⟨rfl, rfl⟩ : init = [] ∧ last = [] := by
        cases init with
        | nil => exact ⟨rfl, (List.cons.inj hs).1.symm⟩
        | cons piece init =>
            have hnil : [] = init ++ [last] := (List.cons.inj hs).2
            simp at hnil
      simpa using ht
  | cons c s ih =>
      rw [depth_cons] at ht
      rw [splitCommas] at hs
      rw [List.cons_append, splitCommas]
      split at hs
      · next hcut =>
        obtain ⟨rfl, rfl⟩ := hcut
        cases init with
        | nil => exact absurd (List.cons.inj hs).2 (splitCommas_ne_nil 0 s)
        | cons piece init =>
            obtain ⟨rfl, hrest⟩ := List.cons.inj hs
            have hstep : depthStep ',' = 0 := by decide
            rw [hstep, Int.zero_add] at ht
            rw [if_pos ⟨rfl, rfl⟩, ih hrest ht]
            rfl
      · next hcut =>
        rw [← Int.add_assoc] at ht
        rw [if_neg hcut]
        split at hs
        · next hnil => exact absurd hnil (splitCommas_ne_nil _ s)
        · next piece pieces hpieces =>
          cases init with
          | nil =>
              obtain ⟨rfl, rfl⟩ := List.cons.inj hs
              have honly : splitCommas (d + depthStep c) s = [] ++ [piece] := hpieces
              rw [ih honly ht]
              rfl
          | cons front init =>
              obtain ⟨rfl, rfl⟩ := List.cons.inj hs
              have hseveral : splitCommas (d + depthStep c) s = piece :: init ++ [last] := hpieces
              rw [ih hseveral ht]
              rfl

/-- At depth zero, a comma divides the pieces before it from those behind it. -/
theorem splitCommas_append_comma (h : d + depth s = 0) (t : Text) :
    splitCommas d (s ++ ',' :: t) = splitCommas d s ++ splitCommas 0 t := by
  obtain ⟨init, last, hs⟩ := exists_splitCommas_eq d s
  have hcomma : splitCommas (d + depth s) (',' :: t) = [] :: splitCommas 0 t := by
    rw [h]
    rfl
  rw [splitCommas_append hs hcomma, hs]
  simp

/-- A text is one piece when no comma in it is at depth zero. -/
theorem splitCommas_eq_singleton
    (h : ∀ before after, t = before ++ ',' :: after → d + depth before ≠ 0) :
    splitCommas d t = [t] := by
  induction t generalizing d with
  | nil => rfl
  | cons c r ih =>
      have hcut : ¬ (c = ',' ∧ d = 0) := by
        rintro ⟨rfl, rfl⟩
        exact h [] r rfl (by simp)
      have hrest : splitCommas (d + depthStep c) r = [r] := by
        apply ih
        intro before after hr
        have hdepth := h (c :: before) after (by rw [hr]; rfl)
        rwa [depth_cons, ← Int.add_assoc] at hdepth
      rw [splitCommas, if_neg hcut, hrest]

/-- Pieces with commas between them are cut at these commas, and each piece on its own, when all but the
last lead back to depth zero. -/
theorem splitCommas_joinWith {pieces : List Text} (hne : pieces ≠ [])
    (h : ∀ piece ∈ pieces.dropLast, depth piece = 0) :
    splitCommas 0 (joinWith "," pieces) = pieces.flatMap (splitCommas 0) := by
  induction pieces with
  | nil => exact absurd rfl hne
  | cons first others ih =>
      cases others with
      | nil =>
          rw [joinWith, List.intercalate_singleton, List.flatMap_cons, List.flatMap_nil,
            List.append_nil]
      | cons second others =>
          rw [List.dropLast_cons_of_ne_nil (List.cons_ne_nil _ _)] at h
          obtain ⟨hfirst, hothers⟩ := List.forall_mem_cons.mp h
          have hcut := splitCommas_append_comma (d := 0) (s := first) (by omega)
            (joinWith "," (second :: others))
          rw [ih (List.cons_ne_nil _ _) hothers] at hcut
          rw [joinWith, List.intercalate_cons_cons, ← joinWith, List.append_assoc, List.flatMap_cons]
          exact hcut

/-- Pieces that are not cut themselves are found again between the commas. -/
theorem splitCommas_joinWith_eq_self {pieces : List Text} (hne : pieces ≠ [])
    (hdepth : ∀ piece ∈ pieces, depth piece = 0)
    (hwhole : ∀ piece ∈ pieces, splitCommas 0 piece = [piece]) :
    splitCommas 0 (joinWith "," pieces) = pieces := by
  have hfront : ∀ piece ∈ pieces.dropLast, depth piece = 0 := by
    intro piece hpiece
    exact hdepth piece ((List.dropLast_sublist pieces).mem hpiece)
  have hmap : pieces.map (splitCommas 0) = pieces.map fun piece => [piece] :=
    List.map_congr_left hwhole
  rw [splitCommas_joinWith hne hfront, List.flatMap_def, hmap, ← List.flatMap_def,
    List.flatMap_singleton']

/-- A piece is the text from a cut, or from its start, up to the next cut or its end. -/
theorem length_le_of_mem_splitCommas {piece : Text} (h : piece ∈ splitCommas d t) :
    piece.length ≤ t.length := by
  induction t generalizing d piece with
  | nil =>
      obtain rfl := List.mem_singleton.mp h
      exact Nat.le_refl _
  | cons c r ih =>
      rw [splitCommas] at h
      split at h
      · rcases List.mem_cons.mp h with rfl | h
        · simp
        · have := ih h
          rw [List.length_cons]
          omega
      · split at h
        · obtain rfl := List.mem_singleton.mp h
          simp
        · next first others heq =>
          rcases List.mem_cons.mp h with rfl | h
          · have := ih (heq ▸ List.mem_cons_self : first ∈ splitCommas (d + depthStep c) r)
            simpa using this
          · have := ih (heq ▸ List.mem_cons_of_mem _ h : piece ∈ splitCommas (d + depthStep c) r)
            rw [List.length_cons]
            omega

/-- The first piece stands at the front of a text. -/
theorem isPrefix_of_splitCommas {first : Text} {rest : List Text}
    (h : splitCommas d t = first :: rest) : first <+: t := by
  induction t generalizing d first rest with
  | nil =>
      obtain ⟨rfl, -⟩ := List.cons.inj h
      exact List.prefix_refl _
  | cons c r ih =>
      rw [splitCommas] at h
      split at h
      · obtain ⟨rfl, -⟩ := List.cons.inj h
        exact List.nil_prefix
      · split at h
        · next hnil => exact absurd hnil (splitCommas_ne_nil _ r)
        · next piece pieces hpieces =>
          obtain ⟨rfl, -⟩ := List.cons.inj h
          exact (List.prefix_cons_inj c).mpr (ih hpieces)

/-! ## Plain text -/

/-- The brackets that are counted, and the comma. -/
def cutMarks : Text := "<([{>)]},"

theorem depthStep_eq_zero {c : Char} (h : c ∉ cutMarks) : depthStep c = 0 := by
  have hopen : ¬ (c = '<' ∨ c = '(' ∨ c = '[' ∨ c = '{') := by
    rintro (rfl | rfl | rfl | rfl) <;> exact h (by decide)
  have hclose : ¬ (c = '>' ∨ c = ')' ∨ c = ']' ∨ c = '}') := by
    rintro (rfl | rfl | rfl | rfl) <;> exact h (by decide)
  rw [depthStep, if_neg hopen, if_neg hclose]

/-- A text without brackets and commas keeps the depth. -/
theorem depth_eq_zero (h : ∀ c ∈ t, c ∉ cutMarks) : depth t = 0 := by
  induction t with
  | nil => rfl
  | cons c r ih =>
      rw [depth_cons, depthStep_eq_zero (h c List.mem_cons_self),
        ih fun c' hc' => h c' (List.mem_cons_of_mem _ hc')]
      rfl

/-- The depth counts all four pairs of brackets. -/
theorem depth_eq_counts (t : Text) :
    depth t = ((t.count '<' : Int) - t.count '>') + ((t.count '(' : Int) - t.count ')') +
      ((t.count '[' : Int) - t.count ']') + ((t.count '{' : Int) - t.count '}') := by
  induction t with
  | nil => rfl
  | cons c r ih =>
      have hstep : depthStep c = (([c].count '<' : Int) - [c].count '>') +
          (([c].count '(' : Int) - [c].count ')') + (([c].count '[' : Int) - [c].count ']') +
          (([c].count '{' : Int) - [c].count '}') := by
        by_cases hc : c ∈ cutMarks
        · revert c
          exact forall_mem_of_all (by decide)
        · have hzero : ∀ m ∈ cutMarks, [c].count m = 0 := by
            intro m hm
            apply List.count_eq_zero.mpr
            rw [List.mem_singleton]
            rintro rfl
            exact hc hm
          rw [depthStep_eq_zero hc, hzero '<' (by decide), hzero '>' (by decide),
            hzero '(' (by decide), hzero ')' (by decide), hzero '[' (by decide),
            hzero ']' (by decide), hzero '{' (by decide), hzero '}' (by decide)]
          rfl
      rw [depth_cons, ih, hstep]
      simp only [List.count_cons, List.count_nil]
      omega

/-- A text without commas is one piece. -/
theorem splitCommas_of_notMem (h : ',' ∉ t) : splitCommas d t = [t] := by
  apply splitCommas_eq_singleton
  rintro before after rfl
  simp at h

theorem notMem_cutMarks_of_isBlank {c : Char} (h : isBlank c = true) : c ∉ cutMarks :=
  notMem_of_class (by decide) h

theorem notMem_cutMarks_of_isWord {c : Char} (h : isWord c = true) : c ∉ cutMarks :=
  notMem_of_class (by decide) h

end Registrar.Text
