import Registrar.Proofs.Sites

/-!
# What is left of comments

Block comments are removed before line comments, and their removal may bring two slashes together. The
removal of line comments starts at every double slash that it meets, from left to right, and what it keeps
behind a slash is no slash (`cut?_dropLines`). So no double slash is left, and a place in what is left can
be inside a comment only because a block is open there.

A block is open when an opening mark stands before the place and no closing mark starts after it
(`BlockOpen`). Looking back from the place, the first of the two marks decides (`opensBlock_iff`): a further
character changes nothing unless it completes a mark.
-/

namespace Registrar.Text

variable {t : Text}

/-! ## No double slash -/

/-- The removal keeps the first character of a text that starts with no slash. -/
theorem head?_dropLines_false (h : t.head? ≠ some '/') : (dropLines false t).head? ≠ some '/' := by
  cases t with
  | nil => simp [dropLines]
  | cons c r =>
      have hc : c ≠ '/' := by simpa using h
      simp [dropLines, hc]

/-- The removal of line comments leaves no double slash, wherever it starts. -/
theorem cut?_dropLines (inside : Bool) (t : Text) :
    (dropLines inside t).cut? ['/', '/'] = none := by
  induction t generalizing inside with
  | nil => rfl
  | cons c r ih =>
      -- a character that is kept makes no double slash with what is kept behind it
      have hkept : ¬ (c = '/' ∧ (dropLines false r).head? = some '/') →
          cut? (c :: dropLines false r) ['/', '/'] = none := by
        intro hmark
        rw [cut?_pair, if_neg hmark, ih]
        rfl
      rw [dropLines]
      cases inside with
      | true =>
          by_cases hc : c = '\n'
          · rw [if_pos rfl, if_pos hc]
            exact hkept fun h => absurd (hc.symm.trans h.1) (by decide)
          · rw [if_pos rfl, if_neg hc, ih]
      | false =>
          rw [if_neg Bool.false_ne_true]
          by_cases hmark : c = '/' ∧ r.head? = some '/'
          · rw [if_pos hmark, ih]
          · rw [if_neg hmark]
            apply hkept
            intro h
            exact head?_dropLines_false (fun hr => hmark ⟨h.1, hr⟩) h.2

theorem not_infix_stripComments (t : Text) : ¬ ['/', '/'] <:+: t.stripComments := by
  rw [← occursIn_iff, Bool.not_eq_true, occursIn_eq_false_iff]
  exact cut?_dropLines false t.stripBlockComments

/-! ## Marks of two characters -/

/-- The characters `x` and `y` stand in a text one after the other, behind `n` others. -/
def MarkAt (x y : Char) (t : Text) (n : Nat) : Prop :=
  t[n]? = some x ∧ t[n + 1]? = some y

/-- A block is open at the end of a text: an opening mark stands in it, and no closing mark starts
after that one. -/
def BlockOpen (t : Text) : Prop :=
  ∃ n, MarkAt '/' '*' t n ∧ ∀ m, n < m → ¬ MarkAt '*' '/' t m

section

variable {x y c : Char} {n : Nat}

theorem MarkAt.lt_length (h : MarkAt x y t n) : n + 1 < t.length :=
  (List.getElem?_eq_some_iff.mp h.2).1

theorem markAt_append_pair (x y : Char) (t : Text) : MarkAt x y (t ++ [x, y]) t.length := by
  constructor
  · rw [List.getElem?_append_right (Nat.le_refl _), Nat.sub_self]
    rfl
  · rw [List.getElem?_append_right (Nat.le_add_right _ 1), Nat.add_sub_cancel_left]
    rfl

/-- One more character makes no difference to the marks, unless it completes one. -/
theorem markAt_concat_iff (h : t.getLast? = some x → c ≠ y) :
    MarkAt x y (t ++ [c]) n ↔ MarkAt x y t n := by
  constructor
  · intro hmark
    have hlength := hmark.lt_length
    rw [List.length_append, List.length_singleton] at hlength
    obtain ⟨hx, hy⟩ := hmark
    rw [List.getElem?_append_left (by omega)] at hx
    by_cases hlast : n + 1 < t.length
    · rw [List.getElem?_append_left hlast] at hy
      exact ⟨hx, hy⟩
    · have hend : n + 1 = t.length := by omega
      have hfirst : t.getLast? = some x := by
        rw [List.getLast?_eq_getElem?, ← hend, Nat.add_sub_cancel, hx]
      rw [hend, List.getElem?_append_right (Nat.le_refl _), Nat.sub_self] at hy
      exact absurd (Option.some.inj hy) (h hfirst)
  · intro hmark
    have hlength := hmark.lt_length
    exact ⟨by rw [List.getElem?_append_left (by omega)]; exact hmark.1,
      by rw [List.getElem?_append_left hlength]; exact hmark.2⟩

end

/-- The mark that is met first when looking back from a place tells whether a block is open there. -/
theorem opensBlock_iff (before : Text) :
    Place.opensBlock before = true ↔ BlockOpen before.reverse := by
  fun_induction Place.opensBlock before with
  | case1 r =>
      have hopen := markAt_append_pair '/' '*' r.reverse
      simp only [List.reverse_cons, List.append_assoc, List.singleton_append, true_iff]
      refine ⟨r.reverse.length, hopen, fun m hm hclose => ?_⟩
      have hlength := hclose.lt_length
      simp only [List.length_append, List.length_cons, List.length_nil] at hlength
      omega
  | case2 r =>
      have hclose := markAt_append_pair '*' '/' r.reverse
      simp only [List.reverse_cons, List.append_assoc, List.singleton_append, Bool.false_eq_true,
        false_iff]
      intro hopen
      obtain ⟨n, hopen, hlast⟩ := hopen
      have hlength := hopen.lt_length
      simp only [List.length_append, List.length_cons, List.length_nil] at hlength
      by_cases hn : n < r.reverse.length
      · exact hlast r.reverse.length hn hclose
      · obtain rfl : n = r.reverse.length := by omega
        have hsame := hopen.1.symm.trans hclose.1
        cases hsame
  | case3 c r hopen hclose ih =>
      have hlast : r.reverse.getLast? = r.head? := by
        rw [List.getLast?_eq_head?_reverse, List.reverse_reverse]
      have hopens : r.reverse.getLast? = some '/' → c ≠ '*' := by
        intro hhead hc
        rw [hlast, List.head?_eq_some_iff] at hhead
        obtain ⟨rest, rfl⟩ := hhead
        exact hopen rest hc rfl
      have hcloses : r.reverse.getLast? = some '*' → c ≠ '/' := by
        intro hhead hc
        rw [hlast, List.head?_eq_some_iff] at hhead
        obtain ⟨rest, rfl⟩ := hhead
        exact hclose rest hc rfl
      rw [ih, List.reverse_cons]
      simp only [BlockOpen, markAt_concat_iff hopens, markAt_concat_iff hcloses]
  | case4 =>
      simp [BlockOpen, MarkAt]

/-- **No line comment survives.** What is left when the comments of a text are removed holds no double
slash, also where the removal of a block brings two slashes together. So a place in it, found by its
offset, is in a comment exactly when an opening mark before it has no later closing mark before the
place. -/
theorem stripComments_leaves_open_blocks (t : Text) :
    occursIn "//" t.stripComments = false ∧
    ∀ p ∈ t.stripComments.places, Place.atOffset p.offset t.stripComments = p ∧
      (p.inComment = true ↔ BlockOpen p.before.reverse) := by
  constructor
  · exact Bool.eq_false_iff.mpr fun h => not_infix_stripComments t (occursIn_iff.mp h)
  · intro p hp
    refine ⟨atOffset_offset hp, ?_⟩
    obtain ⟨front, back, hsplit, rfl⟩ := mem_placesFrom_iff.mp hp
    rw [List.append_nil]
    -- the line up to the place, read backwards, would show a double slash of the text
    have hline : occursIn "//" (front.reverse.takeWhile (· ≠ '\n')) = false := by
      apply Bool.eq_false_iff.mpr
      intro h
      have hbefore := (occursIn_iff.mp h).trans (List.takeWhile_prefix _).isInfix
      have hfront : ['/', '/'] <:+: front := List.reverse_infix.mp hbefore
      apply not_infix_stripComments t
      rw [hsplit]
      exact hfront.trans (List.prefix_append front back).isInfix
    rw [Place.inComment, hline, Bool.false_or]
    exact opensBlock_iff front.reverse

example : stripComments "a //* b *// c\nd" = "a \nd" := by decide +kernel

end Registrar.Text
