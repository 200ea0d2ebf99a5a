import Registrar.Text.Search
import Registrar.Proofs.Comments

/-!
# Searching a text in parts

A reading that takes a piece of a text without looking behind it finds in two texts put together
what it finds in each of them (`findAll_append`), as long as no reading starts in the first and ends
in the second. What is found first divides the text, and what stands before it holds no other thing
that is looked for (`TakesPiece.of_findFirst?`). The last part says where a needle or a last line
divides a text.
-/

namespace Registrar.Text

variable {α : Type} {read : Text → Option (α × Text)} {want : α → Bool}

theorem findAll_of_some {t rest : Text} {a : α} (h : read t = some (a, rest))
    (hlt : rest.length < t.length) : findAll read t = a :: findAll read rest := by
  cases t with
  | nil => exact absurd hlt (Nat.not_lt_zero _)
  | cons c r =>
      rw [findAll, h]
      exact if_pos hlt

theorem findAll_of_none {c : Char} {r : Text} (h : read (c :: r) = none) :
    findAll read (c :: r) = findAll read r := by
  rw [findAll, h]

theorem findFirst?_of_none {c : Char} {r : Text} (h : read (c :: r) = none) :
    findFirst? read want (c :: r) = (findFirst? read want r).map (·.shift [c]) := by
  rw [findFirst?, h]

theorem exists_of_mem_findAll {t : Text} {a : α}
    (h : a ∈ findAll read t) : ∃ source rest, read source = some (a, rest) := by
  fun_induction findAll read t with
  | case1 => cases h
  | case2 c r _ ih => exact ih h
  | case3 c r first rest hread _ ih =>
      rcases List.mem_cons.mp h with rfl | h
      · exact ⟨_, _, hread⟩
      · exact ih h
  | case4 c r first rest hread _ =>
      obtain rfl := List.mem_singleton.mp h
      exact ⟨_, _, hread⟩

/-- Does the reading fail at every place of a text? -/
def fails (read : Text → Option (α × Text)) : Text → Bool
  | [] => true
  | c :: r => (read (c :: r)).isNone && fails read r

theorem findAll_eq_nil_of_fails {t : Text} (h : fails read t = true) : findAll read t = [] := by
  induction t with
  | nil => rw [findAll]
  | cons c r ih =>
      simp only [fails, Bool.and_eq_true, Option.isNone_iff_eq_none] at h
      rw [findAll_of_none h.1, ih h.2]

/-- Where the reading succeeds it takes a piece from the front and does not look behind it. -/
def TakesPiece (read : Text → Option (α × Text)) : Prop :=
  ∀ t a rest, read t = some (a, rest) →
    ∃ source, source ≠ [] ∧ t = source ++ rest ∧ ∀ s, read (source ++ s) = some (a, s)

/-- What the reading does not find in the first text it does not find across the two. -/
def Parts (read : Text → Option (α × Text)) (a b : Text) : Prop :=
  ∀ u, u <:+ a → u ≠ [] → read u = none → read (u ++ b) = none

theorem Parts.of_suffix {a a' b : Text} (h : Parts read a b) (ha : a' <:+ a) : Parts read a' b :=
  fun u hu => h u (hu.trans ha)

theorem Occurrence.shift_nil (o : Occurrence α) : o.shift [] = o := rfl

theorem Occurrence.shift_shift (o : Occurrence α) (a b : Text) :
    (o.shift b).shift a = o.shift (a ++ b) := by
  simp [Occurrence.shift]

namespace TakesPiece

theorem append (hread : TakesPiece read) {t rest : Text} {a : α} (h : read t = some (a, rest))
    (s : Text) : read (t ++ s) = some (a, rest ++ s) := by
  obtain ⟨source, -, rfl, hsource⟩ := hread t a rest h
  rw [List.append_assoc, hsource]

/-- A text is gone through character by character, and piece by piece where one can be read. -/
theorem induction (hread : TakesPiece read) {motive : Text → Prop} (nil : motive [])
    (skip : ∀ c r, read (c :: r) = none → motive r → motive (c :: r))
    (piece : ∀ source a rest, source ≠ [] → (∀ s, read (source ++ s) = some (a, s)) →
      motive rest → motive (source ++ rest)) (t : Text) : motive t := by
  induction hn : t.length using Nat.strongRecOn generalizing t with
  | ind n ih =>
      cases t with
      | nil => exact nil
      | cons c r =>
          cases hfront : read (c :: r) with
          | none => exact skip c r hfront (ih r.length (by simp [← hn]) r rfl)
          | some found =>
              obtain ⟨a, rest⟩ := found
              obtain ⟨source, hne, heq, hsource⟩ := hread _ _ _ hfront
              have hlt : rest.length < n := by
                have hpos := List.length_pos_iff.mpr hne
                rw [← hn, heq, List.length_append]
                omega
              rw [heq]
              exact piece source a rest hne hsource (ih rest.length hlt rest rfl)

theorem findAll_piece {source : Text} {a : α} (hne : source ≠ [])
    (h : ∀ s, read (source ++ s) = some (a, s)) (rest : Text) :
    findAll read (source ++ rest) = a :: findAll read rest := by
  have hpos := List.length_pos_iff.mpr hne
  refine findAll_of_some (h rest) ?_
  rw [List.length_append]
  omega

theorem findFirst?_piece {source : Text} {a : α} (hne : source ≠ [])
    (h : ∀ s, read (source ++ s) = some (a, s)) (rest : Text) :
    findFirst? read want (source ++ rest) =
      if want a then some ⟨[], source, a, rest⟩
      else (findFirst? read want rest).map (·.shift source) := by
  have hread := h rest
  have htake : (source ++ rest).take ((source ++ rest).length - rest.length) = source := by simp
  have hlt : rest.length < (source ++ rest).length := by
    have hpos := List.length_pos_iff.mpr hne
    rw [List.length_append]
    omega
  obtain ⟨c, r, hcons⟩ := List.exists_cons_of_ne_nil (List.append_ne_nil_of_left_ne_nil hne rest)
  rw [hcons] at hread htake hlt ⊢
  rw [findFirst?, hread]
  dsimp only
  rw [htake, if_pos hlt]

/-- Nothing is found exactly when the reading fails everywhere. -/
theorem findAll_eq_nil_iff (hread : TakesPiece read) {t : Text} :
    findAll read t = [] ↔ ∀ u, u <:+ t → read u = none := by
  induction t using hread.induction with
  | nil =>
      refine ⟨fun _ u hu => ?_, fun _ => by rw [findAll]⟩
      rw [List.suffix_nil.mp hu, Option.eq_none_iff_forall_ne_some]
      rintro ⟨a, rest⟩ hsome
      obtain ⟨source, hne, heq, -⟩ := hread _ _ _ hsome
      exact hne (List.append_eq_nil_iff.mp heq.symm).1
  | skip c r hnone ih =>
      rw [findAll_of_none hnone, ih]
      constructor
      · intro h u hu
        rcases List.suffix_cons_iff.mp hu with rfl | hu
        · exact hnone
        · exact h u hu
      · exact fun h u hu => h u (hu.trans (List.suffix_cons c r))
  | piece source a rest hne hsource ih =>
      rw [findAll_piece hne hsource]
      refine ⟨fun h => absurd h (List.cons_ne_nil _ _), fun h => ?_⟩
      have hnone := h _ (List.suffix_refl _)
      rw [hsource] at hnone
      cases hnone

theorem findAll_eq_nil_of_suffix (hread : TakesPiece read) {s t : Text} (h : findAll read t = [])
    (hs : s <:+ t) : findAll read s = [] :=
  hread.findAll_eq_nil_iff.mpr fun u hu => hread.findAll_eq_nil_iff.mp h u (hu.trans hs)

/-- The first thing that is wanted is the first wanted one among all that are found. -/
theorem map_value_findFirst? (hread : TakesPiece read) (t : Text) :
    (findFirst? read want t).map Occurrence.value = (findAll read t).find? want := by
  induction t using hread.induction with
  | nil => simp [findFirst?, findAll]
  | skip c r hnone ih =>
      rw [findFirst?_of_none hnone, findAll_of_none hnone, ← ih, Option.map_map]
      rfl
  | piece source a rest hne hsource ih =>
      rw [findFirst?_piece hne hsource, findAll_piece hne hsource]
      split
      · next hwant => rw [List.find?_cons_of_pos hwant]; rfl
      · next hwant =>
        rw [List.find?_cons_of_neg hwant, ← ih, Option.map_map]
        rfl

theorem findFirst?_eq_none_iff (hread : TakesPiece read) {t : Text} :
    findFirst? read want t = none ↔ ∀ a ∈ findAll read t, want a = false := by
  have hmap : findFirst? read want t = none ↔
      (findFirst? read want t).map Occurrence.value = none := Option.map_eq_none_iff.symm
  rw [hmap, hread.map_value_findFirst?, List.find?_eq_none]
  simp

/-- The first thing found divides the text. It is read from its own source, and before it there is
nothing that is wanted. -/
theorem of_findFirst? (hread : TakesPiece read) {t : Text} {o : Occurrence α}
    (h : findFirst? read want t = some o) :
    t = o.before ++ (o.source ++ o.rest) ∧ o.source ≠ [] ∧
      (∀ s, read (o.source ++ s) = some (o.value, s)) ∧ want o.value = true ∧
      findFirst? read want o.before = none := by
  induction t using hread.induction generalizing o with
  | nil => simp [findFirst?] at h
  | skip c r hnone ih =>
      rw [findFirst?_of_none hnone] at h
      obtain ⟨o, ho, rfl⟩ := Option.map_eq_some_iff.mp h
      obtain ⟨hr, hne, hsource, hwant, hbefore⟩ := ih ho
      -- what cannot be read in the whole text cannot be read in a shorter one
      have hfront : read (c :: o.before) = none := by
        rw [Option.eq_none_iff_forall_ne_some]
        intro found hfound
        have hlong := hread.append hfound (o.source ++ o.rest)
        rw [List.cons_append, ← hr, hnone] at hlong
        cases hlong
      refine ⟨congrArg (c :: ·) hr, hne, hsource, hwant, ?_⟩
      show findFirst? read want (c :: o.before) = none
      rw [findFirst?_of_none hfront, hbefore]
      rfl
  | piece source a rest hne hsource ih =>
      rw [findFirst?_piece hne hsource] at h
      split at h
      · next hwant =>
        obtain rfl := Option.some.inj h
        exact ⟨rfl, hne, hsource, hwant, by rw [findFirst?]⟩
      · next hwant =>
        obtain ⟨o, ho, rfl⟩ := Option.map_eq_some_iff.mp h
        obtain ⟨hrest, hne', hsource', hwanted, hbefore⟩ := ih ho
        refine ⟨?_, hne', hsource', hwanted, ?_⟩
        · show source ++ rest = source ++ o.before ++ (o.source ++ o.rest)
          rw [hrest, List.append_assoc]
        · show findFirst? read want (source ++ o.before) = none
          rw [findFirst?_piece hne hsource, if_neg hwant, hbefore]
          rfl

/-! ## Two texts -/

/-- What is found in two texts together is what is found in one and in the other. -/
theorem findAll_append (hread : TakesPiece read) {a b : Text} (h : Parts read a b) :
    findAll read (a ++ b) = findAll read a ++ findAll read b := by
  induction a using hread.induction with
  | nil => simp [findAll]
  | skip c r hnone ih =>
      have hfront := h (c :: r) (List.suffix_refl _) (List.cons_ne_nil _ _) hnone
      rw [List.cons_append] at hfront ⊢
      rw [findAll_of_none hfront, findAll_of_none hnone, ih (h.of_suffix (List.suffix_cons c r))]
  | piece source a rest hne hsource ih =>
      rw [List.append_assoc, findAll_piece hne hsource, findAll_piece hne hsource,
        ih (h.of_suffix (List.suffix_append source rest)), List.cons_append]

/-- A text without what is wanted moves the first thing found on. -/
theorem findFirst?_append_of_none (hread : TakesPiece read) {a b : Text} (h : Parts read a b)
    (hnone : findFirst? read want a = none) :
    findFirst? read want (a ++ b) = (findFirst? read want b).map (·.shift a) := by
  induction a using hread.induction with
  | nil => simp [Occurrence.shift_nil]
  | skip c r hfail ih =>
      rw [findFirst?_of_none hfail, Option.map_eq_none_iff] at hnone
      have hfront := h (c :: r) (List.suffix_refl _) (List.cons_ne_nil _ _) hfail
      rw [List.cons_append] at hfront ⊢
      rw [findFirst?_of_none hfront, ih (h.of_suffix (List.suffix_cons c r)) hnone,
        Option.map_map]
      rfl
  | piece source a rest hne hsource ih =>
      rw [findFirst?_piece hne hsource] at hnone
      split at hnone
      · cases hnone
      · next hwant =>
        have hrest := ih (h.of_suffix (List.suffix_append source rest))
          (Option.map_eq_none_iff.mp hnone)
        rw [List.append_assoc, findFirst?_piece hne hsource, if_neg hwant, hrest, Option.map_map]
        exact congrArg (Option.map · _) (funext fun o => o.shift_shift source rest)

/-- What is found first in a text is found first in a longer one. -/
theorem findFirst?_append_of_some (hread : TakesPiece read) {a b : Text} (h : Parts read a b)
    {o : Occurrence α} (hsome : findFirst? read want a = some o) :
    findFirst? read want (a ++ b) = some { o with rest := o.rest ++ b } := by
  induction a using hread.induction generalizing o with
  | nil => simp [findFirst?] at hsome
  | skip c r hfail ih =>
      rw [findFirst?_of_none hfail] at hsome
      obtain ⟨o, ho, rfl⟩ := Option.map_eq_some_iff.mp hsome
      have hfront := h (c :: r) (List.suffix_refl _) (List.cons_ne_nil _ _) hfail
      rw [List.cons_append] at hfront ⊢
      rw [findFirst?_of_none hfront, ih (h.of_suffix (List.suffix_cons c r)) ho]
      rfl
  | piece source a rest hne hsource ih =>
      rw [findFirst?_piece hne hsource] at hsome
      rw [List.append_assoc, findFirst?_piece hne hsource]
      split at hsome
      · next hwant =>
        obtain rfl := Option.some.inj hsome
        rw [if_pos hwant]
      · next hwant =>
        obtain ⟨o, ho, rfl⟩ := Option.map_eq_some_iff.mp hsome
        rw [if_neg hwant, ih (h.of_suffix (List.suffix_append source rest)) ho]
        rfl

end TakesPiece

/-! ## Needles and lines -/

/-- A text cannot be cut exactly where the needle does not occur. -/
theorem cut?_eq_none_iff {t needle : Text} : t.cut? needle = none ↔ ¬ needle <:+: t := by
  induction t with
  | nil => cases needle <;> simp [cut?]
  | cons c r ih =>
      have hfront : after? (c :: r) needle = none ↔ ¬ needle <+: c :: r := by
        rw [Option.eq_none_iff_forall_ne_some]
        constructor
        · rintro h ⟨rest, hrest⟩
          exact h rest (after?_eq_some_iff.mpr hrest.symm)
        · intro h rest hrest
          exact h ⟨rest, (after?_eq_some_iff.mp hrest).symm⟩
      rw [List.infix_cons_iff, not_or, ← ih, ← hfront, cut?]
      cases after? (c :: r) needle <;> simp

/-- A needle whose first character does not come again in it is found where it first stands. -/
theorem cut?_append_needle {c : Char} {w before : Text} (hw : c ∉ w)
    (h : ¬ (c :: w) <:+: before) (rest : Text) :
    (before ++ (c :: w ++ rest)).cut? (c :: w) = some (before, rest) := by
  induction before with
  | nil =>
      have hfront : after? (c :: w ++ rest) (c :: w) = some rest := after?_eq_some_iff.mpr rfl
      rw [List.nil_append, List.cons_append, cut?, ← List.cons_append, hfront]
  | cons d r ih =>
      rw [List.infix_cons_iff, not_or] at h
      have hfront : after? (d :: (r ++ (c :: w ++ rest))) (c :: w) = none := by
        rw [Option.eq_none_iff_forall_ne_some]
        intro x hx
        obtain ⟨rfl, hr⟩ := List.cons.inj (after?_eq_some_iff.mp hx)
        rcases List.append_eq_append_iff.mp hr with ⟨y, hwr, hy⟩ | ⟨y, hrw, -⟩
        · cases y with
          | nil => exact h.1 ⟨[], by rw [hwr]; simp⟩
          | cons e y =>
              obtain ⟨rfl, -⟩ := List.cons.inj hy
              exact hw (hwr ▸ List.mem_append_right r List.mem_cons_self)
        · exact h.1 ⟨y, by rw [hrw]; rfl⟩
      rw [List.cons_append, cut?, hfront, ih h.2]
      rfl

/-- What a cut leaves in front does not hold the needle. -/
theorem not_infix_of_cut? {t needle before rest : Text} (hne : needle ≠ [])
    (h : t.cut? needle = some (before, rest)) : ¬ needle <:+: before := by
  rw [← cut?_eq_none_iff, Option.eq_none_iff_forall_ne_some]
  rintro ⟨before', rest'⟩ hcut
  have hlong := cut?_append hcut (needle ++ rest)
  rw [← List.append_assoc, ← eq_of_cut? h, h] at hlong
  obtain ⟨rfl, -⟩ := Prod.mk.inj (Option.some.inj hlong)
  have hlength := congrArg List.length (eq_of_cut? hcut)
  have hpos := List.length_pos_iff.mpr hne
  simp only [List.length_append] at hlength
  omega

theorem eq_append_of_cut? {t needle before rest : Text} (h : t.cut? needle = some (before, rest)) :
    t = before ++ (needle ++ rest) := by
  rw [← List.append_assoc]
  exact eq_of_cut? h

theorem eq_of_cutLast? {t needle before after : Text}
    (h : t.cutLast? needle = some (before, after)) : t = before ++ (needle ++ after) := by
  obtain ⟨⟨x, y⟩, hcut, heq⟩ := Option.map_eq_some_iff.mp h
  obtain ⟨rfl, rfl⟩ := Prod.mk.inj heq
  have hrev := congrArg List.reverse (eq_of_cut? hcut)
  simpa using hrev

/-- Lines go in behind the last line break, or at the end of a text without one. -/
theorem insertBeforeLastLine_eq (t lines : Text) :
    ∃ a b, t = a ++ b ∧ insertBeforeLastLine t lines = a ++ (lines ++ b) ∧ '\n' ∉ b ∧
      (a.getLast? = some '\n' ∨ b = [] ∧ '\n' ∉ a) := by
  have hsplit : t = (t.reverse.dropWhile (· ≠ '\n')).reverse ++
      (t.reverse.takeWhile (· ≠ '\n')).reverse := by
    rw [← List.reverse_append, List.takeWhile_append_dropWhile, List.reverse_reverse]
  have hlast : '\n' ∉ (t.reverse.takeWhile (· ≠ '\n')).reverse := by
    intro hmem
    simpa using List.all_eq_true.mp List.all_takeWhile _ (List.mem_reverse.mp hmem)
  unfold insertBeforeLastLine splitTail
  split
  · next tail hpair =>
    obtain ⟨hbefore, -⟩ := Prod.mk.inj hpair
    rw [hbefore, List.nil_append] at hsplit
    rw [← hsplit] at hlast
    exact ⟨t, [], by simp, by simp, List.not_mem_nil, .inr ⟨rfl, hlast⟩⟩
  · next before tail hne hpair =>
    obtain ⟨rfl, rfl⟩ := Prod.mk.inj hpair
    refine ⟨_, _, hsplit, by simp, hlast, .inl ?_⟩
    have hhead := List.head?_dropWhile_not (fun c : Char => decide (c ≠ '\n')) t.reverse
    rw [List.getLast?_reverse]
    cases hdrop : t.reverse.dropWhile (fun c => decide (c ≠ '\n')) with
    | nil => exact absurd (by rw [hdrop]; rfl) hne
    | cons c r =>
        rw [hdrop] at hhead
        simpa using hhead

/-- The last line starts in the second of two texts if that has a line break. -/
theorem insertBeforeLastLine_append_of_mem {t : Text} (h : '\n' ∈ t) (front lines : Text) :
    ∃ a b, t = a ++ b ∧ a.getLast? = some '\n' ∧ '\n' ∉ b ∧
      insertBeforeLastLine (front ++ t) lines = front ++ (a ++ (lines ++ b)) := by
  obtain ⟨a, b, hab, hlines, hb, hend⟩ := insertBeforeLastLine_eq (front ++ t) lines
  rcases List.append_eq_append_iff.mp hab with ⟨a', rfl, rfl⟩ | ⟨s, -, rfl⟩
  · have hmem : '\n' ∈ a' := (List.mem_append.mp h).resolve_right hb
    have hne := List.ne_nil_of_mem hmem
    refine ⟨a', b, rfl, ?_, hb, by rw [hlines, List.append_assoc]⟩
    have hlast := hend.resolve_right fun hnone => hnone.2 (List.mem_append_right front hmem)
    rw [List.getLast?_append, List.getLast?_eq_some_getLast hne] at hlast
    rw [List.getLast?_eq_some_getLast hne]
    exact hlast
  · exact absurd (List.mem_append_right s h) hb

/-- Otherwise it starts in the first, or there is only one line. -/
theorem insertBeforeLastLine_append_of_notMem {t : Text} (h : '\n' ∉ t) (front lines : Text) :
    (∃ a b, front = a ++ b ∧ a.getLast? = some '\n' ∧ '\n' ∉ b ∧
      insertBeforeLastLine (front ++ t) lines = a ++ (lines ++ (b ++ t))) ∨
      insertBeforeLastLine (front ++ t) lines = front ++ (t ++ lines) := by
  obtain ⟨a, b, hab, hlines, hb, hend | ⟨rfl, -⟩⟩ := insertBeforeLastLine_eq (front ++ t) lines
  · rcases List.append_eq_append_iff.mp hab with ⟨a', rfl, rfl⟩ | ⟨b', rfl, rfl⟩
    · by_cases hne : a' = []
      · subst hne
        rw [List.append_nil] at hend hlines
        exact .inl ⟨front, [], (List.append_nil front).symm, hend, List.not_mem_nil, hlines⟩
      · rw [List.getLast?_append, List.getLast?_eq_some_getLast hne] at hend
        have hmem : '\n' ∈ a' := Option.some.inj hend ▸ List.getLast_mem hne
        exact absurd (List.mem_append_left b hmem) h
    · exact .inl ⟨a, b', rfl, hend, fun hmem => hb (List.mem_append_left t hmem), hlines⟩
  · rw [List.append_nil] at hab
    exact .inr (by rw [hlines, ← hab, List.append_nil, List.append_assoc])

end Registrar.Text
