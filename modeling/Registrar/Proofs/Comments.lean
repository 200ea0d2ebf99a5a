import Registrar.Header

/-!
# Comments are transparent

A header is read from the text that is left when its comments are removed. This module says what
removal does to a text that is put together from parts: block comments are found from left to right
by the first opening mark and the first closing mark after it (`stripBlockComments_eq`), so parts
can be stripped one by one as long as no mark arises where they meet (`stripBlockComments_append`).

The main statement is about the reading of a whole header: a block comment may be cut out of it, and
a line comment may be cut off, without any change to what is read.
-/

namespace Registrar.Text

/-! ## First occurrences -/

theorem after?_append {t needle rest : Text} (h : t.after? needle = some rest) (s : Text) :
    (t ++ s).after? needle = some (rest ++ s) := by
  rw [after?_eq_some_iff] at h ⊢
  rw [h, List.append_assoc]

/-- A needle that does not start a text does not start a longer one either, once the text has room
for it. -/
theorem after?_append_eq_none {t needle : Text} (hlen : needle.length ≤ t.length)
    (h : t.after? needle = none) (s : Text) : (t ++ s).after? needle = none := by
  induction needle generalizing t with
  | nil => simp [after?] at h
  | cons n needle ih =>
      cases t with
      | nil => simp at hlen
      | cons c r =>
          by_cases hc : c = n
          · simp only [after?, hc, if_true] at h
            simp only [List.cons_append, after?, hc, if_true]
            exact ih (by simpa using hlen) h
          · simp [after?, hc]

/-- A cut divides the text. -/
theorem eq_of_cut? {t needle before rest : Text} (h : t.cut? needle = some (before, rest)) :
    t = before ++ needle ++ rest := by
  induction t generalizing before rest with
  | nil =>
      rw [cut?] at h
      split at h
      · next hempty => simp_all
      · cases h
  | cons c r ih =>
      rw [cut?] at h
      split at h
      · next after hafter =>
        simp only [Option.some.injEq, Prod.mk.injEq] at h
        rw [← h.1, ← h.2, List.nil_append]
        exact after?_eq_some_iff.mp hafter
      · obtain ⟨⟨before', rest'⟩, hcut, heq⟩ := Option.map_eq_some_iff.mp h
        simp only [Prod.mk.injEq] at heq
        rw [← heq.1, ← heq.2, ih hcut]
        rfl

/-- The first occurrence in a text is the first occurrence in a longer one. -/
theorem cut?_append {t needle before rest : Text} (h : t.cut? needle = some (before, rest))
    (s : Text) : (t ++ s).cut? needle = some (before, rest ++ s) := by
  induction t generalizing before rest with
  | nil =>
      rw [cut?] at h
      split at h
      · next hempty =>
        have hneedle : needle = [] := List.isEmpty_iff.mp hempty
        simp only [Option.some.injEq, Prod.mk.injEq] at h
        rw [← h.1, ← h.2, hneedle]
        cases s with
        | nil => rfl
        | cons c r => simp [cut?, after?]
      · cases h
  | cons c r ih =>
      rw [cut?] at h
      split at h
      · next after hafter =>
        simp only [Option.some.injEq, Prod.mk.injEq] at h
        have hfront := after?_append hafter s
        rw [List.cons_append] at hfront ⊢
        rw [cut?, hfront, ← h.1, ← h.2]
      · next hafter =>
        obtain ⟨⟨before', rest'⟩, hcut, heq⟩ := Option.map_eq_some_iff.mp h
        simp only [Prod.mk.injEq] at heq
        have hroom : needle.length ≤ (c :: r).length := by
          have := congrArg List.length (eq_of_cut? hcut)
          simp only [List.length_append, List.length_cons] at this ⊢
          omega
        have hfront := after?_append_eq_none hroom hafter s
        rw [List.cons_append] at hfront ⊢
        rw [cut?, hfront, ih hcut, ← heq.1, ← heq.2]
        rfl

/-- A needle occurs exactly when the text can be cut at it. -/
theorem occursIn_eq_false_iff {needle t : Text} :
    needle.occursIn t = false ↔ t.cut? needle = none := by
  induction t with
  | nil => cases needle <;> simp [occursIn, cut?]
  | cons c r ih =>
      have hfront : needle.isPrefixOf (c :: r) = (after? (c :: r) needle).isSome := by
        rw [Bool.eq_iff_iff, List.isPrefixOf_iff_prefix, Option.isSome_iff_exists]
        constructor
        · intro hgiven
          obtain ⟨rest, hrest⟩ := hgiven
          exact ⟨rest, after?_eq_some_iff.mpr hrest.symm⟩
        · intro hgiven
          obtain ⟨rest, hrest⟩ := hgiven
          exact ⟨rest, (after?_eq_some_iff.mp hrest).symm⟩
      rw [occursIn, cut?, hfront]
      cases after? (c :: r) needle with
      | none => simpa using ih
      | some rest => simp

theorem occursIn_append {needle t : Text} (h : needle.occursIn t = true) (s : Text) :
    needle.occursIn (t ++ s) = true :=
  occursIn_iff.mpr ((occursIn_iff.mp h).trans (List.prefix_append t s).isInfix)

/-- The first mark of two characters is at the front, or further on. -/
theorem cut?_pair (a b c : Char) (r : Text) :
    cut? (c :: r) [a, b] =
      if c = a ∧ r.head? = some b then some ([], r.tail)
      else (cut? r [a, b]).map fun (before, rest) => (c :: before, rest) := by
  have hfront : after? (c :: r) [a, b] =
      if c = a ∧ r.head? = some b then some r.tail else none := by
    cases r with
    | nil => by_cases hc : c = a <;> simp [after?, hc]
    | cons d r => by_cases hc : c = a <;> by_cases hd : d = b <;> simp [after?, hc, hd]
  rw [cut?, hfront]
  by_cases hmark : c = a ∧ r.head? = some b
  · rw [if_pos hmark, if_pos hmark]
  · rw [if_neg hmark, if_neg hmark]

/-- A text without a mark that does not end in the mark's first character moves the mark on. -/
theorem cut?_pair_append {a b : Char} {t : Text} (h : t.cut? [a, b] = none) (s : Text)
    (hjoin : t.getLast? = some a → s.head? ≠ some b) :
    (t ++ s).cut? [a, b] = (s.cut? [a, b]).map fun (before, rest) => (t ++ before, rest) := by
  induction t with
  | nil => simp
  | cons c r ih =>
      rw [cut?_pair] at h
      split at h
      · cases h
      · next hmark =>
        have hnone : cut? r [a, b] = none := by simpa using h
        have hmark' : ¬ (c = a ∧ (r ++ s).head? = some b) := by
          cases r with
          | nil => simpa [hjoin] using fun hc => hjoin (by simp [hc])
          | cons d r => simpa using hmark
        have hrest : r.getLast? = some a → s.head? ≠ some b := by
          cases r with
          | nil => simp
          | cons d r => simpa using hjoin
        rw [List.cons_append, cut?_pair, if_neg hmark', ih hnone hrest, Option.map_map]
        rfl

/-! ## Block comments -/

theorem hasBlockEnd_eq (t : Text) : hasBlockEnd t = (t.cut? ['*', '/']).isSome := by
  induction t with
  | nil => rfl
  | cons c r ih =>
      have hcut := cut?_pair '*' '/' c r
      rw [hasBlockEnd.eq_def]
      split
      · next heq =>
        cases heq
        exact congrArg Option.isSome hcut.symm
      · next hmark heq =>
        cases heq
        rw [if_neg] at hcut
        · rw [ih]
          exact ((congrArg Option.isSome hcut).trans (by simp)).symm
        · intro hgiven
          obtain ⟨rfl, hhead⟩ := hgiven
          obtain ⟨rest, rfl⟩ := List.head?_eq_some_iff.mp hhead
          exact hmark rest rfl rfl
      · next heq => cases heq

theorem dropBlocks_true_cons (c : Char) (r : Text) :
    dropBlocks true (c :: r) =
      if c = '*' ∧ r.head? = some '/' then dropBlocks false r.tail else dropBlocks true r := by
  rw [dropBlocks.eq_def]
  split
  · next heq => cases heq
  · next heq =>
    cases heq
    simp
  · next heq =>
    cases heq
    simp
  · next hclose _ heq =>
    cases heq
    rw [if_pos rfl, if_neg]
    intro hgiven
    obtain ⟨rfl, hhead⟩ := hgiven
    obtain ⟨rest, rfl⟩ := List.head?_eq_some_iff.mp hhead
    exact hclose rest rfl rfl

theorem dropBlocks_false_cons (c : Char) (r : Text) :
    dropBlocks false (c :: r) =
      if c = '/' ∧ r.head? = some '*' then
        if hasBlockEnd r.tail then dropBlocks true r.tail else c :: r
      else c :: dropBlocks false r := by
  rw [dropBlocks.eq_def]
  split
  · next heq => cases heq
  · next heq =>
    cases heq
    simp
  · next r heq =>
    cases heq
    have hfront : '/' = '/' ∧ ('*' :: r).head? = some '*' := ⟨rfl, rfl⟩
    rw [if_neg Bool.false_ne_true, if_pos hfront]
    rfl
  · next _ hopen heq =>
    cases heq
    rw [if_neg (by simp), if_neg]
    intro hgiven
    obtain ⟨rfl, hhead⟩ := hgiven
    obtain ⟨rest, rfl⟩ := List.head?_eq_some_iff.mp hhead
    exact hopen rest rfl rfl

/-- Inside a comment everything up to the first closing mark goes. -/
theorem dropBlocks_true {t body rest : Text} (h : t.cut? ['*', '/'] = some (body, rest)) :
    dropBlocks true t = dropBlocks false rest := by
  induction t generalizing body with
  | nil => cases h
  | cons c r ih =>
      have hcut := (cut?_pair '*' '/' c r).symm.trans h
      rw [dropBlocks_true_cons]
      split at hcut
      · next hmark =>
        cases hcut
        rw [if_pos hmark]
      · next hmark =>
        obtain ⟨⟨body', rest'⟩, hr, heq⟩ := Option.map_eq_some_iff.mp hcut
        cases heq
        rw [if_neg hmark, ih hr]

/-- **Block comments, from left to right.** A comment runs from the first opening mark to the first
closing mark after it; where there is no such pair the text stays as it is. -/
theorem stripBlockComments_eq (t : Text) :
    t.stripBlockComments =
      match t.cut? ['/', '*'] with
      | none => t
      | some (before, body) =>
        match body.cut? ['*', '/'] with
        | none => t
        | some (_, rest) => before ++ rest.stripBlockComments := by
  induction t with
  | nil => rfl
  | cons c r ih =>
      rw [stripBlockComments, dropBlocks_false_cons, cut?_pair, hasBlockEnd_eq]
      by_cases hmark : c = '/' ∧ r.head? = some '*'
      · rw [if_pos hmark, if_pos hmark]
        cases hclose : cut? r.tail ['*', '/'] with
        | none => simp [hclose]
        | some found => simpa [hclose, stripBlockComments] using dropBlocks_true hclose
      · rw [if_neg hmark, if_neg hmark]
        rw [stripBlockComments] at ih
        rw [ih]
        cases cut? r ['/', '*'] with
        | none => rfl
        | some found =>
            simp only [Option.map_some]
            cases cut? found.2 ['*', '/'] with
            | none => rfl
            | some closed => rfl

/-- A part without an opening mark stays, if none arises where it meets the rest. -/
theorem stripBlockComments_plain_append {t : Text} (h : t.cut? ['/', '*'] = none) (s : Text)
    (hjoin : t.getLast? = some '/' → s.head? ≠ some '*') :
    (t ++ s).stripBlockComments = t ++ s.stripBlockComments := by
  rw [stripBlockComments_eq (t ++ s), cut?_pair_append h s hjoin, stripBlockComments_eq s]
  cases s.cut? ['/', '*'] with
  | none => rfl
  | some found =>
      simp only [Option.map_some]
      cases cut? found.2 ['*', '/'] with
      | none => rfl
      | some closed => simp

/-- What follows the last block comment of a text, where comments are found from left to right; the
whole text when it has none. -/
def afterBlocks (t : Text) : Text :=
  match _hopen : t.cut? ['/', '*'] with
  | none => t
  | some (_, body) =>
    match _hclose : body.cut? ['*', '/'] with
    | none => t
    | some (_, rest) => afterBlocks rest
termination_by t.length
decreasing_by
  have hbody := congrArg List.length (eq_of_cut? _hopen)
  have hrest := congrArg List.length (eq_of_cut? _hclose)
  simp only [List.length_append, List.length_cons] at hbody hrest
  omega

/-- **Parts are stripped one by one.** Where no opening mark is pending behind the comments of the
first part and none arises where the parts meet, removing block comments distributes over them. -/
theorem stripBlockComments_append {t : Text} (hpending : (afterBlocks t).cut? ['/', '*'] = none)
    (s : Text) (hjoin : t.stripBlockComments.getLast? = some '/' → s.head? ≠ some '*') :
    (t ++ s).stripBlockComments = t.stripBlockComments ++ s.stripBlockComments := by
  fun_induction afterBlocks t with
  | case1 t hopen =>
      have hself : t.stripBlockComments = t := by rw [stripBlockComments_eq, hopen]
      rw [hself] at hjoin ⊢
      exact stripBlockComments_plain_append hopen s hjoin
  | case2 t before body hopen hclose => simp [hopen] at hpending
  | case3 t before body hopen inner rest hclose ih =>
      have hself : t.stripBlockComments = before ++ rest.stripBlockComments := by
        rw [stripBlockComments_eq, hopen]
        simp only [hclose]
      have hjoin' : rest.stripBlockComments.getLast? = some '/' → s.head? ≠ some '*' := by
        intro hlast
        refine hjoin ?_
        rw [hself, List.getLast?_append, hlast]
        rfl
      rw [stripBlockComments_eq (t ++ s), cut?_append hopen s]
      simp only [cut?_append hclose s]
      rw [ih hpending hjoin', hself, List.append_assoc]

/-- A block comment is removed as a whole. -/
theorem stripBlockComments_block {body : Text} (h : body.cut? ['*', '/'] = none) (rest : Text) :
    stripBlockComments (['/', '*'] ++ body ++ ['*', '/'] ++ rest) = rest.stripBlockComments := by
  have hclose : (body ++ (['*', '/'] ++ rest)).cut? ['*', '/'] = some (body, rest) := by
    rw [cut?_pair_append h _ (by simp)]
    simp [cut?_pair]
  have hopen : cut? (['/', '*'] ++ body ++ ['*', '/'] ++ rest) ['/', '*'] =
      some ([], body ++ (['*', '/'] ++ rest)) := by
    simp [cut?_pair]
  rw [stripBlockComments_eq, hopen]
  simp only [hclose, List.nil_append]

/-! ## Line comments -/

/-- A line comment behind a text that ends in no slash may be cut off, whether the text ends inside a
line comment of its own or not. -/
theorem dropLines_comment {t body : Text} (inside : Bool) (hslash : t.getLast? ≠ some '/')
    (hline : '\n' ∉ body) (rest : Text) :
    dropLines inside (t ++ ['/', '/'] ++ body ++ ['\n'] ++ rest) =
      dropLines inside (t ++ ['\n'] ++ rest) := by
  have hskip : ∀ r : Text, '\n' ∉ r →
      dropLines true (r ++ ['\n'] ++ rest) = '\n' :: dropLines false rest := by
    intro r hr
    induction r with
    | nil => simp [dropLines]
    | cons c r ih =>
        have hc : c ≠ '\n' := fun h => hr (h ▸ List.mem_cons_self)
        simp only [List.cons_append, dropLines, if_true, if_neg hc]
        exact ih fun h => hr (List.mem_cons_of_mem _ h)
  induction t generalizing inside with
  | nil =>
      cases inside with
      | true => simpa [dropLines] using hskip body hline
      | false => simpa [dropLines] using hskip body hline
  | cons c r ih =>
      have hr : r.getLast? ≠ some '/' := by
        cases r with
        | nil => simp
        | cons d r => simpa using hslash
      -- the character after `c` decides whether a comment starts at `c`
      have hnext : c = '/' → (r ++ ['/', '/'] ++ body ++ ['\n'] ++ rest).head? =
          (r ++ ['\n'] ++ rest).head? := by
        intro hgiven
        obtain rfl := hgiven
        cases r with
        | nil => simp at hslash
        | cons d r => rfl
      simp only [List.cons_append] at ih hnext ⊢
      rw [dropLines, dropLines, ih true hr, ih false hr]
      by_cases hc : c = '/'
      · rw [hnext hc]
      · simp only [hc, false_and]

/-! ## Texts without comments -/

/-- A mark needs both of its characters. -/
theorem cut?_pair_eq_none {a b : Char} {t : Text} (h : a ∉ t ∨ b ∉ t) : t.cut? [a, b] = none := by
  cases hcut : t.cut? [a, b] with
  | none => rfl
  | some found =>
      have ht := eq_of_cut? hcut
      rcases h with ha | hb
      · exact absurd (by simp [ht]) ha
      · exact absurd (by simp [ht]) hb

/-- A comment occurs: a double slash, or an opening mark with a closing mark behind it. -/
def holdsComment (t : Text) : Bool :=
  occursIn ['/', '/'] t ||
    match t.cut? ['/', '*'] with
    | some (_, body) => occursIn ['*', '/'] body
    | none => false

theorem stripLineComments_eq_self {t : Text} (h : t.cut? ['/', '/'] = none) :
    t.stripLineComments = t := by
  induction t with
  | nil => rfl
  | cons c r ih =>
      rw [cut?_pair] at h
      split at h
      · cases h
      · next hmark =>
        have hr : stripLineComments r = r := ih (Option.map_eq_none_iff.mp h)
        rw [stripLineComments, dropLines, if_neg Bool.false_ne_true, if_neg hmark]
        exact congrArg (c :: ·) hr

/-- A text without comments is left as it is. -/
theorem stripComments_eq_self {t : Text} (h : holdsComment t = false) : t.stripComments = t := by
  rw [holdsComment, Bool.or_eq_false_iff, occursIn_eq_false_iff] at h
  have hblocks : t.stripBlockComments = t := by
    rw [stripBlockComments_eq]
    cases hopen : t.cut? ['/', '*'] with
    | none => rfl
    | some found =>
        have hclose := h.2
        rw [hopen] at hclose
        simp only [occursIn_eq_false_iff.mp hclose]
  rw [stripComments, hblocks, stripLineComments_eq_self h.1]

/-- Parts without a slash around a text that ends in no mark's first character bring no comment with
them. -/
theorem holdsComment_between {front t back : Text} (hfront : '/' ∉ front) (hback : '/' ∉ back)
    (hslash : t.getLast? ≠ some '/') (hstar : t.getLast? ≠ some '*')
    (h : holdsComment t = false) : holdsComment (front ++ (t ++ back)) = false := by
  have hlast : ∀ b, front.getLast? = some '/' → (t ++ back).head? ≠ some b :=
    fun _ hf => absurd (List.mem_of_getLast? hf) hfront
  rw [holdsComment, Bool.or_eq_false_iff, occursIn_eq_false_iff] at h ⊢
  have hopenFront : front.cut? ['/', '*'] = none := cut?_pair_eq_none (Or.inl hfront)
  constructor
  · rw [cut?_pair_append (cut?_pair_eq_none (Or.inl hfront)) _ (hlast _),
      cut?_pair_append h.1 _ fun hl => absurd hl hslash, cut?_pair_eq_none (Or.inl hback)]
    rfl
  · rw [cut?_pair_append hopenFront _ (hlast _)]
    cases hopen : t.cut? ['/', '*'] with
    | none =>
        rw [cut?_pair_append hopen _ fun hl => absurd hl hslash, cut?_pair_eq_none (Or.inl hback)]
        rfl
    | some found =>
        obtain ⟨before, body⟩ := found
        rw [cut?_append hopen]
        have hclose := h.2
        rw [hopen] at hclose
        -- what is open in `t` could be closed only across the end of `t`
        have hbody : body.getLast? = some '*' → back.head? ≠ some '/' := by
          intro hl
          refine absurd ?_ hstar
          rw [eq_of_cut? hopen, List.getLast?_append, hl]
          rfl
        show occursIn ['*', '/'] (body ++ back) = false
        rw [occursIn_eq_false_iff, cut?_pair_append (occursIn_eq_false_iff.mp hclose) _ hbody,
          cut?_pair_eq_none (Or.inr hback)]
        rfl

end Registrar.Text

namespace Registrar.Place

theorem opensBlock_eq_false {before : Text} (h : '/' ∉ before) : opensBlock before = false := by
  fun_induction opensBlock before with
  | case1 r => exact absurd (by simp) h
  | case2 r => rfl
  | case3 c r _ _ ih => exact ih fun hr => h (List.mem_cons_of_mem _ hr)
  | case4 => rfl

theorem opensBlock_append {before : Text} (h : opensBlock before = true) (further : Text) :
    opensBlock (before ++ further) = true := by
  fun_induction opensBlock before with
  | case1 r => rfl
  | case2 r => cases h
  | case3 c r hopen hclose ih =>
      rw [List.cons_append, opensBlock]
      · exact ih h
      · intro r' heq hr
        cases r with
        | nil => cases h
        | cons d r =>
            cases hr
            exact hopen r heq rfl
      · intro r' heq hr
        cases r with
        | nil => cases h
        | cons d r =>
            cases hr
            exact hclose r heq rfl
  | case4 => cases h

/-- A place in a comment stays in it when more text is put in front. -/
theorem inComment_append {before after : Text} (h : inComment ⟨before, after⟩ = true)
    (further after' : Text) : inComment ⟨before ++ further, after'⟩ = true := by
  rw [inComment, Bool.or_eq_true] at h ⊢
  rcases h with h | h
  · left
    show Text.occursIn _ ((before ++ further).takeWhile _) = true
    rw [List.takeWhile_append]
    split
    · next hall =>
      rw [(List.takeWhile_prefix _).eq_of_length hall] at h
      exact Text.occursIn_append h _
    · exact h
  · right
    exact opensBlock_append h further

/-- A place with no slash before it is in no comment. -/
theorem inComment_eq_false {p : Place} (h : '/' ∉ p.before) : p.inComment = false := by
  have hline : '/' ∉ p.before.takeWhile (· ≠ '\n') :=
    fun hmem => h ((List.takeWhile_sublist _).mem hmem)
  have hslashes : Text.occursIn ['/', '/'] (p.before.takeWhile (· ≠ '\n')) = false :=
    Text.occursIn_eq_false_iff.mpr (Text.cut?_pair_eq_none (Or.inl hline))
  rw [inComment, opensBlock_eq_false h, Bool.or_false]
  exact hslashes

end Registrar.Place

namespace Registrar.Header

open Text

/-- **Comments are transparent.** Let `a` be a text in which no block comment is pending and that, its
block comments apart, does not end in a slash. Then a block comment between `a` and any `c` changes
nothing about what is read, and neither does a line comment before a line break: not what is
declared, not the error, and not the offset that the error names. -/
theorem read_across_comment (a b c : Text) (hpending : occursIn "/*" a.afterBlocks = false)
    (hslash : a.stripBlockComments.getLast? ≠ some '/') :
    (occursIn "*/" b = false → read (a ++ "/*" ++ b ++ "*/" ++ c) = read (a ++ c)) ∧
    ('\n' ∉ b → occursIn "/*" ("//" ++ b) = false →
      read (a ++ "//" ++ b ++ "\n" ++ c) = read (a ++ "\n" ++ c)) := by
  have hclosed : a.afterBlocks.cut? ['/', '*'] = none := occursIn_eq_false_iff.mp hpending
  have hstrip : ∀ s : Text, (a ++ s).stripBlockComments =
      a.stripBlockComments ++ s.stripBlockComments :=
    fun s => stripBlockComments_append hclosed s fun h => absurd h hslash
  constructor
  · intro hb
    have hblock := stripBlockComments_block (occursIn_eq_false_iff.mp hb) c
    have hsame : (a ++ "/*" ++ b ++ "*/" ++ c).stripBlockComments =
        (a ++ c).stripBlockComments := by
      rw [List.append_assoc, List.append_assoc, List.append_assoc, hstrip, hstrip]
      simpa using hblock
    rw [read, read, stripComments, stripComments, hsame]
  · intro hline hb
    -- neither the comment nor its line break holds a mark that would start a block
    have hmark : cut? (['/', '/'] ++ b) ['/', '*'] = none := occursIn_eq_false_iff.mp hb
    have hcomment : cut? (['/', '/'] ++ b ++ ['\n']) ['/', '*'] = none := by
      rw [cut?_pair_append hmark _ (by simp)]
      rfl
    have hends : (['/', '/'] ++ b ++ ['\n']).getLast? = some '\n' := List.getLast?_concat
    have hblock := stripBlockComments_plain_append hcomment c (by rw [hends]; simp)
    have hbreak := stripBlockComments_plain_append (t := ['\n']) rfl c (by simp)
    have hleft : (a ++ "//" ++ b ++ "\n" ++ c).stripBlockComments =
        a.stripBlockComments ++ ['/', '/'] ++ b ++ ['\n'] ++ c.stripBlockComments := by
      rw [List.append_assoc, List.append_assoc, List.append_assoc, hstrip]
      simpa using hblock
    have hright : (a ++ "\n" ++ c).stripBlockComments =
        a.stripBlockComments ++ ['\n'] ++ c.stripBlockComments := by
      rw [List.append_assoc, hstrip]
      simpa using hbreak
    rw [read, read, stripComments, stripComments, hleft, hright, stripLineComments,
      stripLineComments, dropLines_comment false hslash hline]

/-- A marker between half-open delimiters is inside the comment, and the enumeration around it is
read as if neither were there. -/
theorem read_across_comment_marker :
    let a : Text := "/* one */ UENUM() enum class E \x7b A, "
    let b : Text := " UENUM() B = 7, /x* / \" //"
    let c : Text := "C \x7d;"
    (occursIn "/*" a.afterBlocks = false ∧ a.stripBlockComments.getLast? ≠ some '/' ∧
      occursIn "*/" b = false ∧ '\n' ∉ b ∧ occursIn "/*" ("//" ++ b) = false) ∧
    read (a ++ "/*" ++ b ++ "*/" ++ c) = read (a ++ c) ∧
    read (a ++ "//" ++ b ++ "\n" ++ c) = read (a ++ "\n" ++ c) := by
  intro a b c
  have hpending : occursIn "/*" a.afterBlocks = false := by
    show occursIn "/*" (afterBlocks "/* one */ UENUM() enum class E \x7b A, ") = false
    cbv
  have hslash : a.stripBlockComments.getLast? ≠ some '/' := by decide +kernel
  have hclose : occursIn "*/" b = false := by decide +kernel
  have hline : '\n' ∉ b := by decide +kernel
  have hopen : occursIn "/*" ("//" ++ b) = false := by decide +kernel
  obtain ⟨hblock, hcomment⟩ := read_across_comment a b c hpending hslash
  exact ⟨⟨hpending, hslash, hclose, hline, hopen⟩, hblock hclose, hcomment hline hopen⟩

end Registrar.Header
