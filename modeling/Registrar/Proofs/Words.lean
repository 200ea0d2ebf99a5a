import Registrar.TypeName

/-!
# Words and the white space between them

No character is both part of a word and white space. So white space at the ends of a text adds
nothing to its words, and nothing to the normal form of a type name (`normalize_between_blanks`).
The lemmas on the last word of a text (`splitTail_trimEnd_name`) and on white space behind it
(`trimEnd_append_blanks`) are what the readers of declarations rest on.
-/

namespace Registrar.Text

/-! ## Character classes -/

/-- The code points of white space. -/
def blankCodes : List Nat :=
  [0x09, 0x0A, 0x0B, 0x0C, 0x0D, 0x20, 0x85, 0xA0, 0x1680, 0x2000, 0x2001, 0x2002, 0x2003, 0x2004,
   0x2005, 0x2006, 0x2007, 0x2008, 0x2009, 0x200A, 0x2028, 0x2029, 0x202F, 0x205F, 0x3000]

theorem toNat_mem_blankCodes {c : Char} (h : isBlank c = true) : c.toNat ∈ blankCodes := by
  simp only [isBlank, CharRange.covers, List.any_cons, List.any_nil, Bool.or_false] at h
  simp only [blankCodes, List.mem_cons, List.not_mem_nil, or_false]
  split at h
  · simp only [Bool.or_eq_true, Bool.and_eq_true, beq_iff_eq, decide_eq_true_eq] at h
    omega
  · simp only [Bool.or_eq_true, Bool.and_eq_true, decide_eq_true_eq] at h
    omega

/-- White space is no part of a word. -/
theorem isWord_eq_false_of_isBlank {c : Char} (h : isBlank c = true) : isWord c = false := by
  have htable : ∀ n ∈ blankCodes, isWord (Char.ofNat n) = false := by decide +kernel
  simpa using htable c.toNat (toNat_mem_blankCodes h)

/-- A property of every character of a given text is checked on one after the other. -/
theorem forall_mem_of_all {t : Text} {P : Char → Prop} [DecidablePred P]
    (h : t.all (fun c => decide (P c)) = true) : ∀ c ∈ t, P c :=
  fun c hc => of_decide_eq_true (List.all_eq_true.mp h c hc)

/-- A character of a class is none of those that the class leaves out. -/
theorem notMem_of_class {p : Char → Bool} {chars : Text} (hp : chars.any p = false) {c : Char}
    (h : p c = true) : c ∉ chars := by
  intro hmem
  have hany : chars.any p = true := List.any_eq_true.mpr ⟨c, hmem, h⟩
  rw [hp] at hany
  cases hany

theorem isBlank_of_mem_space : ∀ c ∈ (" " : Text), isBlank c = true :=
  List.all_eq_true.mp (by decide)

theorem isBlank_of_mem_nil : ∀ c ∈ ([] : Text), isBlank c = true :=
  List.all_eq_true.mp rfl

theorem isBlank_eq_false_of_isWord {c : Char} (h : isWord c = true) : isBlank c = false := by
  cases hc : isBlank c with
  | false => rfl
  | true => rw [isWord_eq_false_of_isBlank hc] at h; cases h

/-! ## Up to a character -/

section

variable {t : Text} {c : Char}

theorem decide_ne_of_notMem (h : c ∉ t) : ∀ d ∈ t, decide (d ≠ c) = true :=
  fun _ hd => decide_eq_true fun heq => h (heq ▸ hd)

theorem takeWhile_ne_append (h : c ∉ t) (rest : Text) :
    (t ++ c :: rest).takeWhile (· ≠ c) = t := by
  rw [List.takeWhile_append_of_pos (decide_ne_of_notMem h), List.takeWhile_cons_of_neg (by simp),
    List.append_nil]

theorem dropWhile_ne_append (h : c ∉ t) (rest : Text) :
    (t ++ c :: rest).dropWhile (· ≠ c) = c :: rest := by
  rw [List.dropWhile_append_of_pos (decide_ne_of_notMem h), List.dropWhile_cons_of_neg (by simp)]

end

/-! ## The ends of a text -/

/-- White space in front of something else is what trimming drops. -/
theorem trimStart_blanks_append {blanks : Text} {c : Char} (hblanks : ∀ d ∈ blanks, isBlank d = true)
    (hc : isBlank c = false) (rest : Text) : (blanks ++ c :: rest).trimStart = c :: rest := by
  rw [trimStart, List.dropWhile_append_of_pos hblanks, List.dropWhile_cons_of_neg (by simp [hc])]

/-- A text is white space and what is left of it when its front is trimmed. -/
theorem exists_blanks_trimStart (t : Text) :
    ∃ blanks, t = blanks ++ t.trimStart ∧ ∀ c ∈ blanks, isBlank c = true :=
  ⟨t.takeWhile isBlank, List.takeWhile_append_dropWhile.symm,
    List.all_eq_true.mp List.all_takeWhile⟩

/-- What is left starts with something else than white space. -/
theorem isBlank_eq_false_of_trimStart {t r : Text} {c : Char} (h : t.trimStart = c :: r) :
    isBlank c = false := by
  have hhead := List.head?_dropWhile_not isBlank t
  rw [← trimStart, h] at hhead
  simpa using hhead

theorem trimStart_word {gap word : Text} (hgap : ∀ c ∈ gap, isBlank c = true) (hne : word ≠ [])
    (hword : ∀ c ∈ word, isWord c = true) (rest : Text) :
    (gap ++ (word ++ rest)).trimStart = word ++ rest := by
  obtain ⟨c, r, rfl⟩ := List.exists_cons_of_ne_nil hne
  have hc := isBlank_eq_false_of_isWord (hword c List.mem_cons_self)
  exact trimStart_blanks_append hgap hc (r ++ rest)

/-- A text that ends in something else than white space is not trimmed at its end. -/
theorem trimEnd_eq_self {t : Text} (hlast : ∀ c, t.getLast? = some c → isBlank c = false) :
    t.trimEnd = t := by
  rw [trimEnd]
  cases ht : t.reverse with
  | nil => simpa using ht.symm
  | cons c r =>
      have hc : isBlank c = false := hlast c (by rw [List.getLast?_eq_head?_reverse, ht]; rfl)
      rw [List.dropWhile_cons_of_neg (by simp [hc]), ← ht, List.reverse_reverse]

/-- Where a text ends in something else than white space, only what follows it is trimmed. -/
theorem trimEnd_append {s : Text} {c : Char} (hlast : s.getLast? = some c) (hc : isBlank c = false)
    (t : Text) : (s ++ t).trimEnd = s ++ t.trimEnd := by
  have hs : s.trimEnd = s := trimEnd_eq_self fun d hd => by
    rw [hlast] at hd
    cases hd
    exact hc
  rw [trimEnd, trimEnd, List.reverse_append, List.dropWhile_append]
  split
  · next hnil =>
    rw [List.isEmpty_iff.mp hnil, List.reverse_nil, List.append_nil]
    exact hs
  · simp

theorem trimEnd_append_space {blanks : Text} (h : ∀ c ∈ blanks, isBlank c = true) (t : Text) :
    (t ++ blanks).trimEnd = t.trimEnd := by
  rw [trimEnd, List.reverse_append,
    List.dropWhile_append_of_pos fun c hc => h c (List.mem_reverse.mp hc), trimEnd]

/-- White space behind a text goes, and where the text ends in something else nothing more goes. -/
theorem trimEnd_append_blanks {t blanks : Text} (hblanks : ∀ c ∈ blanks, isBlank c = true)
    (hlast : ∀ c, t.getLast? = some c → isBlank c = false) : (t ++ blanks).trimEnd = t := by
  rw [trimEnd_append_space hblanks, trimEnd_eq_self hlast]

/-- White space behind a text is trimmed away. -/
theorem trim_append_space {blanks : Text} (h : ∀ c ∈ blanks, isBlank c = true) (t : Text) :
    (t ++ blanks).trim = t.trim := by
  rw [trim, trim, trimStart, List.dropWhile_append]
  split
  · next hnil =>
    have hblanks : (blanks ++ []).dropWhile isBlank = [] := List.dropWhile_append_of_pos h
    rw [List.append_nil] at hblanks
    rw [trimStart, List.isEmpty_iff.mp hnil, hblanks]
  · exact trimEnd_append_space h _

/-- What is left of a text at its end is a front part of it. -/
theorem trimEnd_isPrefix (t : Text) : t.trimEnd <+: t := by
  obtain ⟨blanks, h⟩ := List.dropWhile_suffix isBlank (l := t.reverse)
  refine ⟨blanks.reverse, ?_⟩
  rw [trimEnd, ← List.reverse_append, h, List.reverse_reverse]

/-- A front part that is not all white space starts with what the text starts with. -/
theorem head?_trimStart_of_isPrefix {s t : Text} {c : Char} (h : s <+: t)
    (hs : s.trimStart.head? = some c) : t.trimStart.head? = some c := by
  obtain ⟨rest, rfl⟩ := h
  rw [trimStart] at hs
  rw [trimStart, List.dropWhile_append]
  split
  · next hnil =>
    rw [List.isEmpty_iff.mp hnil] at hs
    cases hs
  · rw [List.head?_append, hs]
    rfl

/-- The longest tail of a class is found, once something else stands before it. -/
theorem splitTail_append {p : Char → Bool} {t tail : Text} (htail : ∀ c ∈ tail, p c = true)
    (hlast : ∀ c, t.getLast? = some c → p c = false) : (t ++ tail).splitTail p = (t, tail) := by
  have hrev : ∀ c ∈ tail.reverse, p c = true :=
    fun c hc => htail c (List.mem_reverse.mp hc)
  rw [splitTail, List.reverse_append, List.dropWhile_append_of_pos hrev,
    List.takeWhile_append_of_pos hrev]
  cases ht : t.reverse with
  | nil => simpa using ht.symm
  | cons c r =>
      have hc : p c = false := hlast c (by rw [List.getLast?_eq_head?_reverse, ht]; rfl)
      rw [List.dropWhile_cons_of_neg (by simp [hc]), List.takeWhile_cons_of_neg (by simp [hc]), ← ht]
      simp

/-- The last word of a text, with white space around it, is divided from what stands before it, once
white space or a character that belongs to no word stands between the two. -/
theorem splitTail_trimEnd_name {t gap name trail : Text} (hgap : ∀ c ∈ gap, isBlank c = true)
    (hne : name ≠ []) (hname : ∀ c ∈ name, isWord c = true)
    (hapart : gap ≠ [] ∨ ∃ c, t.getLast? = some c ∧ isWord c = false)
    (htrail : ∀ c ∈ trail, isBlank c = true) :
    splitTail isWord (trimEnd (t ++ gap ++ name ++ trail)) = (t ++ gap, name) := by
  have hend : ∀ c, (t ++ gap ++ name).getLast? = some c → isBlank c = false := by
    intro c h
    rw [List.getLast?_append, List.getLast?_eq_some_getLast hne] at h
    cases h
    exact isBlank_eq_false_of_isWord (hname _ (List.getLast_mem hne))
  have hbefore : ∀ c, (t ++ gap).getLast? = some c → isWord c = false := by
    intro c h
    by_cases hnil : gap = []
    · obtain ⟨d, hd, hword⟩ := hapart.resolve_left (not_not_intro hnil)
      rw [hnil, List.append_nil, hd] at h
      cases h
      exact hword
    · rw [List.getLast?_append, List.getLast?_eq_some_getLast hnil] at h
      cases h
      exact isWord_eq_false_of_isBlank (hgap _ (List.getLast_mem hnil))
  rw [trimEnd_append_blanks htrail hend, splitTail_append hname hbefore]

/-! ## The words of a text -/

/-- A word is read up to a character that does not belong to it. -/
theorem takeWord?_append {word rest : Text} (hne : word ≠ [])
    (hword : ∀ c ∈ word, isWord c = true) (hrest : endsWord rest = true) :
    takeWord? (word ++ rest) = some (word, rest) := by
  have hstop : rest.takeWhile isWord = [] ∧ rest.dropWhile isWord = rest := by
    cases rest with
    | nil => exact ⟨rfl, rfl⟩
    | cons c r =>
        have hc : ¬ isWord c = true := by simpa [endsWord] using hrest
        exact ⟨List.takeWhile_cons_of_neg hc, List.dropWhile_cons_of_neg hc⟩
  rw [takeWord?, List.takeWhile_append_of_pos hword, List.dropWhile_append_of_pos hword, hstop.1,
    hstop.2, List.append_nil]
  cases word with
  | nil => exact absurd rfl hne
  | cons c w => rfl

theorem endsWord_of_isPrefix {s t : Text} (h : s <+: t) (ht : endsWord t = true) :
    endsWord s = true := by
  obtain ⟨rest, rfl⟩ := h
  cases s with
  | nil => rfl
  | cons c r => exact ht

theorem endsWord_blanks_append {blanks rest : Text} (hblanks : ∀ c ∈ blanks, isBlank c = true)
    (hrest : endsWord rest = true) : endsWord (blanks ++ rest) = true := by
  cases blanks with
  | nil => exact hrest
  | cons c r => simp [endsWord, isWord_eq_false_of_isBlank (hblanks c List.mem_cons_self)]

/-- No word is read where none starts. -/
theorem takeWord?_eq_none {c : Char} (hc : isWord c = false) (rest : Text) :
    takeWord? (c :: rest) = none := by
  rw [takeWord?, List.takeWhile_cons_of_neg (by simp [hc])]

/-- The word that is read and the rest make up the text, and the rest does not continue the word. -/
theorem eq_of_takeWord? {t word rest : Text} (h : takeWord? t = some (word, rest)) :
    t = word ++ rest ∧ endsWord rest = true := by
  unfold takeWord? at h
  split at h
  · cases h
  · next first others htake =>
    obtain ⟨rfl, rfl⟩ := Prod.mk.inj (Option.some.inj h)
    refine ⟨by rw [← htake, List.takeWhile_append_dropWhile], ?_⟩
    have hhead := List.head?_dropWhile_not isWord t
    cases hrest : t.dropWhile isWord with
    | nil => rfl
    | cons c r =>
        rw [hrest] at hhead
        simpa [endsWord] using hhead

/-- What is read as a word is made of word characters. -/
theorem isWord_of_takeWord? {t word rest : Text} (h : takeWord? t = some (word, rest)) :
    ∀ c ∈ word, isWord c = true := by
  unfold takeWord? at h
  split at h
  · cases h
  · next first others htake =>
    obtain ⟨rfl, -⟩ := Prod.mk.inj (Option.some.inj h)
    intro c hc
    rw [← htake] at hc
    exact List.all_eq_true.mp List.all_takeWhile c hc

theorem splitWhere_append_cons {p : Char → Bool} {c : Char} (hc : p c = true) (s t : Text) :
    splitWhere p (s ++ c :: t) = splitWhere p s ++ splitWhere p t := by
  induction s with
  | nil => simp [splitWhere, hc]
  | cons d s ih =>
      by_cases hd : p d = true
      · simp [splitWhere, hd, ih]
      · obtain ⟨piece, pieces, hs⟩ := List.exists_cons_of_ne_nil (splitWhere_ne_nil p s)
        simp [splitWhere, hd, ih, hs]

/-- The words of a text are those on the two sides of any white space in it. -/
theorem words_append_blank {c : Char} (hc : isBlank c = true) (s t : Text) :
    words (s ++ c :: t) = words s ++ words t := by
  rw [words, splitWhere_append_cons hc, List.filter_append, words, words]

theorem words_blanks {blanks : Text} (h : ∀ c ∈ blanks, isBlank c = true) : words blanks = [] := by
  induction blanks with
  | nil => rfl
  | cons c r ih =>
      have hsplit := words_append_blank (h c List.mem_cons_self) [] r
      rw [List.nil_append] at hsplit
      rw [hsplit, ih fun d hd => h d (List.mem_cons_of_mem _ hd)]
      rfl

theorem words_append_blanks {blanks : Text} (h : ∀ c ∈ blanks, isBlank c = true) (t : Text) :
    words (t ++ blanks) = words t := by
  cases blanks with
  | nil => rw [List.append_nil]
  | cons c r =>
      rw [words_append_blank (h c List.mem_cons_self),
        words_blanks fun d hd => h d (List.mem_cons_of_mem _ hd), List.append_nil]

theorem words_blanks_append {blanks : Text} (h : ∀ c ∈ blanks, isBlank c = true) (t : Text) :
    words (blanks ++ t) = words t := by
  induction blanks with
  | nil => rfl
  | cons c r ih =>
      have hsplit := words_append_blank (h c List.mem_cons_self) [] (r ++ t)
      rw [List.nil_append] at hsplit
      rw [List.cons_append, hsplit, ih fun d hd => h d (List.mem_cons_of_mem _ hd)]
      rfl

/-- A word of a text is not empty and holds no white space. -/
theorem of_mem_words {t word : Text} (h : word ∈ words t) :
    word ≠ [] ∧ ∀ c ∈ word, isBlank c = false := by
  obtain ⟨hpiece, hne⟩ := List.mem_filter.mp h
  exact ⟨by simpa using hne, eq_false_of_mem_splitWhere hpiece⟩

/-- Without white space in it, a text is its only word. -/
theorem words_solid {word : Text} (hne : word ≠ []) (hsolid : ∀ c ∈ word, isBlank c = false) :
    words word = [word] := by
  have hsplit : splitWhere isBlank word = [word] := by
    induction word with
    | nil => rfl
    | cons c r ih =>
        have hc := hsolid c List.mem_cons_self
        by_cases hr : r = []
        · simp [hr, splitWhere, hc]
        · have hrest := ih hr fun d hd => hsolid d (List.mem_cons_of_mem _ hd)
          simp [splitWhere, hc, hrest]
  rw [words, hsplit, List.filter_cons_of_pos (by simpa using hne), List.filter_nil]

/-- A row without white space, and then white space or the end, is a word in front of the others. -/
theorem words_solid_append {word rest : Text} (hne : word ≠ [])
    (hsolid : ∀ c ∈ word, isBlank c = false) (hrest : ∀ c, rest.head? = some c → isBlank c = true) :
    words (word ++ rest) = word :: words rest := by
  cases rest with
  | nil => rw [List.append_nil, words_solid hne hsolid, words_blanks isBlank_of_mem_nil]
  | cons c r =>
      have hc := hrest c rfl
      have hfront := words_append_blank hc [] r
      rw [List.nil_append, words_blanks isBlank_of_mem_nil, List.nil_append] at hfront
      rw [words_append_blank hc, words_solid hne hsolid, hfront, List.singleton_append]

/-- Where the first word of a text stands: behind white space only, and before white space or the
end. -/
theorem eq_of_words_eq_cons {t word : Text} {others : List Text} (h : words t = word :: others) :
    ∃ blanks rest, t = blanks ++ (word ++ rest) ∧ (∀ c ∈ blanks, isBlank c = true) ∧
      (∀ c, rest.head? = some c → isBlank c = true) ∧ words rest = others := by
  obtain ⟨blanks, hsplit, hblanks⟩ := exists_blanks_trimStart t
  have hwords : words t.trimStart = word :: others := by
    rw [← h, hsplit, words_blanks_append hblanks, ← hsplit]
  cases htrim : t.trimStart with
  | nil =>
      rw [htrim] at hwords
      cases hwords
  | cons c r =>
      have hc := isBlank_eq_false_of_trimStart htrim
      rw [htrim] at hsplit hwords
      -- the row up to the next white space is the first word
      have hrow := List.takeWhile_append_dropWhile (p := fun c => !isBlank c) (l := c :: r)
      have hne : (c :: r).takeWhile (fun c => !isBlank c) ≠ [] := by
        rw [List.takeWhile_cons_of_pos (by simp [hc])]
        exact List.cons_ne_nil _ _
      have hsolid : ∀ d ∈ (c :: r).takeWhile (fun c => !isBlank c), isBlank d = false := by
        intro d hd
        simpa using List.all_eq_true.mp List.all_takeWhile d hd
      have hrest : ∀ d, ((c :: r).dropWhile fun c => !isBlank c).head? = some d →
          isBlank d = true := by
        intro d hd
        have hhead := List.head?_dropWhile_not (fun c => !isBlank c) (c :: r)
        rw [hd] at hhead
        simpa using hhead
      have hfirst := words_solid_append hne hsolid hrest
      rw [hrow, hwords] at hfirst
      obtain ⟨rfl, hothers⟩ := List.cons.inj hfirst
      exact ⟨blanks, _, by rw [hrow, hsplit], hblanks, hrest, hothers.symm⟩

/-- Texts with a separator between them are the first text, and the separator and a text for each of
the others. -/
theorem joinWith_cons (separator first : Text) (others : List Text) :
    joinWith separator (first :: others) = first ++ others.flatMap (separator ++ ·) := by
  induction others generalizing first with
  | nil => simp [joinWith]
  | cons second others ih =>
      rw [joinWith, List.intercalate_cons_cons, ← joinWith, ih, List.flatMap_cons,
        List.append_assoc, List.append_assoc]

/-- Words with a blank between them are the words of the text. -/
theorem words_joinWith_space {pieces : List Text}
    (h : ∀ word ∈ pieces, word ≠ [] ∧ ∀ c ∈ word, isBlank c = false) :
    words (joinWith " " pieces) = pieces := by
  induction pieces with
  | nil => rfl
  | cons word others ih =>
      obtain ⟨hne, hsolid⟩ := h word List.mem_cons_self
      have hothers := ih fun w hw => h w (List.mem_cons_of_mem _ hw)
      cases others with
      | nil =>
          rw [joinWith, List.intercalate_singleton]
          exact words_solid hne hsolid
      | cons second others =>
          rw [joinWith, List.intercalate_cons_cons, ← joinWith, List.append_assoc]
          have hspace : words (word ++ ' ' :: joinWith " " (second :: others)) = _ :=
            words_append_blank (by decide) _ _
          rw [words_solid hne hsolid, hothers] at hspace
          exact hspace

/-- The pieces of a text hold its characters, without those at which it is split. -/
theorem flatten_splitWhere (p : Char → Bool) (t : Text) :
    (splitWhere p t).flatten = t.filter fun c => !p c := by
  induction t with
  | nil => rfl
  | cons c r ih =>
      by_cases hc : p c = true
      · simp [splitWhere, hc, ih]
      · obtain ⟨first, others, hr⟩ := List.exists_cons_of_ne_nil (splitWhere_ne_nil p r)
        rw [hr, List.flatten_cons] at ih
        simp [splitWhere, hc, hr, ih]

/-- A character stands in a word of a text when it stands in the text and is no white space. -/
theorem exists_mem_words_iff {t : Text} {c : Char} :
    (∃ word ∈ words t, c ∈ word) ↔ c ∈ t ∧ isBlank c = false := by
  have hpieces : c ∈ (splitWhere isBlank t).flatten ↔ c ∈ t ∧ isBlank c = false := by
    rw [flatten_splitWhere, List.mem_filter, Bool.not_eq_true']
  rw [← hpieces, List.mem_flatten]
  constructor
  · rintro ⟨word, hword, hc⟩
    exact ⟨word, (List.mem_filter.mp hword).1, hc⟩
  · rintro ⟨piece, hpiece, hc⟩
    have hne : piece ≠ [] := List.ne_nil_of_mem hc
    exact ⟨piece, List.mem_filter.mpr ⟨hpiece, by simpa using hne⟩, hc⟩

/-- A character of a text is white space or stands in one of the words. -/
theorem isBlank_or_mem_words {t : Text} {c : Char} (h : c ∈ t) :
    isBlank c = true ∨ ∃ word ∈ words t, c ∈ word := by
  cases hc : isBlank c with
  | true => exact Or.inl rfl
  | false => exact Or.inr (exists_mem_words_iff.mpr ⟨h, hc⟩)

end Registrar.Text

namespace Registrar.TypeName

/-- White space around a type name does not change its normal form. -/
theorem normalize_between_blanks {front back : Text} (hfront : ∀ c ∈ front, Text.isBlank c = true)
    (hback : ∀ c ∈ back, Text.isBlank c = true) (t : Text) :
    normalize (front ++ t ++ back) = normalize t := by
  rw [normalize, normalize, Text.words_append_blanks hback, Text.words_blanks_append hfront]

theorem attach_cons {mark c : Char} (hc : c ≠ ' ') (r : Text) :
    attach mark (c :: r) = c :: attach mark r :=
  if_neg fun h => hc h.1

/-- The normal form of a type name with a word in it is not empty. -/
theorem normalize_ne_nil {t : Text} (h : t.words ≠ []) : normalize t ≠ [] := by
  obtain ⟨word, others, hwords⟩ := List.exists_cons_of_ne_nil h
  obtain ⟨hne, hsolid⟩ := Text.of_mem_words (hwords ▸ List.mem_cons_self : word ∈ t.words)
  obtain ⟨c, r, rfl⟩ := List.exists_cons_of_ne_nil hne
  have hc : c ≠ ' ' := by
    rintro rfl
    exact absurd (hsolid ' ' List.mem_cons_self) (by decide)
  rw [normalize, hwords, Text.joinWith_cons, List.cons_append, attach_cons hc, attach_cons hc]
  exact List.cons_ne_nil _ _

/-- The normal form of a type name is that of its words with a blank between them. -/
theorem normalize_joinWith_words (t : Text) :
    normalize (Text.joinWith " " t.words) = normalize t := by
  rw [normalize, Text.words_joinWith_space fun _ => Text.of_mem_words, ← normalize]

end Registrar.TypeName
