import Registrar.Function
import Registrar.Proofs.Brackets
import Registrar.Proofs.CommaPieces

/-!
# Parameter lists

The parameters of a list are what is declared between the commas at depth zero, up to an equals sign at
depth zero (`Parameter.declarations`). White space around a declaration does not count, so a list is
read declaration by declaration (`Parameter.parseList_eq`, `Parameter.declarations_joinWith`).

`WrittenParameter` is a parameter as it is written: a type whose brackets match, a name, and white space
around them. Commas and equals signs inside the brackets of a type are shielded by the depth, and the
name is the last word. So a list of written parameters is read back as it was written, whatever its
length.
-/

namespace Registrar.Text

variable {s t : Text} {d : Int} {mark : Char}

/-! ## Shielded marks -/

/-- Where the text starts at depth `d`, the mark does not stand in it at depth zero. -/
def Shielded (mark : Char) (d : Int) (t : Text) : Prop :=
  ∀ before after, t = before ++ mark :: after → d + depth before ≠ 0

theorem shielded_of_notMem (h : mark ∉ t) (d : Int) : Shielded mark d t := by
  rintro before after rfl
  simp at h

theorem shielded_cons_iff {c : Char} : Shielded mark d (c :: t) ↔
    ¬ (c = mark ∧ d = 0) ∧ Shielded mark (d + depthStep c) t := by
  constructor
  · intro h
    constructor
    · rintro ⟨rfl, rfl⟩
      exact h [] t rfl (by simp)
    · intro before after ht
      have hdepth := h (c :: before) after (by rw [ht]; rfl)
      rwa [depth_cons, ← Int.add_assoc] at hdepth
  · rintro ⟨hfirst, hrest⟩ before after heq
    cases before with
    | nil =>
        obtain ⟨rfl, -⟩ := List.cons.inj heq
        exact fun hdepth => hfirst ⟨rfl, by simpa using hdepth⟩
    | cons e before =>
        obtain ⟨rfl, ht⟩ := List.cons.inj heq
        rw [depth_cons, ← Int.add_assoc]
        exact hrest before after ht

theorem Shielded.append (hs : Shielded mark d s) (ht : Shielded mark (d + depth s) t) :
    Shielded mark d (s ++ t) := by
  induction s generalizing d with
  | nil => simpa using ht
  | cons c s ih =>
      obtain ⟨hfirst, hrest⟩ := shielded_cons_iff.mp hs
      rw [depth_cons, ← Int.add_assoc] at ht
      exact shielded_cons_iff.mpr ⟨hfirst, ih hrest ht⟩

/-- A text without the mark at depth zero is kept up to its end. -/
theorem beforeTopLevel_eq_self (h : Shielded mark d t) : beforeTopLevel mark d t = t := by
  induction t generalizing d with
  | nil => rfl
  | cons c r ih =>
      obtain ⟨hfirst, hrest⟩ := shielded_cons_iff.mp h
      rw [beforeTopLevel, if_neg hfirst, ih hrest]

/-- At depth zero, nothing behind the mark is kept. -/
theorem beforeTopLevel_append_mark (h : d + depth s = 0) (t : Text) :
    beforeTopLevel mark d (s ++ mark :: t) = beforeTopLevel mark d s := by
  induction s generalizing d with
  | nil =>
      have hd : d = 0 := by simpa using h
      exact if_pos ⟨rfl, hd⟩
  | cons c s ih =>
      rw [depth_cons, ← Int.add_assoc] at h
      rw [List.cons_append, beforeTopLevel, beforeTopLevel, ih h]

theorem beforeTopLevel_isPrefix (mark : Char) (d : Int) (t : Text) :
    beforeTopLevel mark d t <+: t := by
  induction t generalizing d with
  | nil => exact List.prefix_refl _
  | cons c r ih =>
      rw [beforeTopLevel]
      split
      · exact List.nil_prefix
      · exact (List.prefix_cons_inj c).mpr (ih _)

/-! ## White space at the ends -/

theorem trim_blanks_append {blanks : Text} (h : ∀ c ∈ blanks, isBlank c = true) (t : Text) :
    (blanks ++ t).trim = t.trim := by
  rw [trim, trimStart, List.dropWhile_append_of_pos h]
  rfl

/-- A text is what is left of it when it is trimmed, between white space. -/
theorem exists_eq_trim (t : Text) : ∃ front back, t = front ++ (t.trim ++ back) ∧
    (∀ c ∈ front, isBlank c = true) ∧ ∀ c ∈ back, isBlank c = true := by
  refine ⟨t.takeWhile isBlank, (t.trimStart.reverse.takeWhile isBlank).reverse, ?_,
    List.all_eq_true.mp List.all_takeWhile, fun c hc => ?_⟩
  · rw [trim, trimEnd, ← List.reverse_append, List.takeWhile_append_dropWhile, List.reverse_reverse,
      trimStart, List.takeWhile_append_dropWhile]
  · exact List.all_eq_true.mp List.all_takeWhile c (List.mem_reverse.mp hc)

/-- Trimming leaves nothing to trim. -/
theorem trim_trim (t : Text) : t.trim.trim = t.trim := by
  obtain ⟨front, back, heq, hfront, hback⟩ := exists_eq_trim t
  rw [← trim_append_space hback, ← trim_blanks_append hfront, ← heq]

/-- Trimming takes white space only. -/
theorem mem_trim {c : Char} (h : c ∈ t) (hc : isBlank c = false) : c ∈ t.trim := by
  obtain ⟨front, back, heq, hfront, hback⟩ := exists_eq_trim t
  have hblank : ∀ blanks : Text, (∀ b ∈ blanks, isBlank b = true) → c ∉ blanks := by
    intro blanks hblanks hmem
    rw [hblanks c hmem] at hc
    cases hc
  rw [heq, List.mem_append, List.mem_append] at h
  exact (h.resolve_left (hblank front hfront)).resolve_right (hblank back hback)

theorem depth_blanks {blanks : Text} (h : ∀ c ∈ blanks, isBlank c = true) : depth blanks = 0 :=
  depth_eq_zero fun c hc => notMem_cutMarks_of_isBlank (h c hc)

theorem comma_notMem_blanks {blanks : Text} (h : ∀ c ∈ blanks, isBlank c = true) : ',' ∉ blanks :=
  fun hmem => absurd (h ',' hmem) (by decide)

/-- White space at the ends of a text stays at the ends of its pieces. -/
theorem map_trim_splitCommas_trim (t : Text) :
    (splitCommas 0 t.trim).map trim = (splitCommas 0 t).map trim := by
  obtain ⟨front, back, heq, hfront, hback⟩ := exists_eq_trim t
  generalize t.trim = core at heq
  subst heq
  obtain ⟨init, last, hcore⟩ := exists_splitCommas_eq 0 core
  have hend : splitCommas (0 + depth core) back = back :: [] :=
    splitCommas_of_notMem (comma_notMem_blanks hback)
  have hinner := splitCommas_append hcore hend
  obtain ⟨first, rest, hpieces⟩ := List.exists_cons_of_ne_nil (splitCommas_ne_nil 0 (core ++ back))
  have hstart : splitCommas 0 front = [] ++ [front] :=
    splitCommas_of_notMem (comma_notMem_blanks hfront)
  have houter : splitCommas 0 (front ++ (core ++ back)) = (front ++ first) :: rest :=
    splitCommas_append hstart (by rwa [depth_blanks hfront])
  rw [houter, List.map_cons, trim_blanks_append hfront, ← List.map_cons (f := trim), ← hpieces,
    hinner, hcore, List.map_append, List.map_append, List.map_singleton, List.map_singleton,
    trim_append_space hback]

/-- White space behind a text adds only white space to what stands before the mark. -/
theorem beforeTopLevel_append_blanks {blanks : Text} (h : ∀ c ∈ blanks, isBlank c = true)
    (hmark : isBlank mark = false) (d : Int) (t : Text) :
    ∃ tail, beforeTopLevel mark d (t ++ blanks) = beforeTopLevel mark d t ++ tail ∧
      ∀ c ∈ tail, isBlank c = true := by
  induction t generalizing d with
  | nil =>
      have hnot : mark ∉ blanks := fun hmem => by
        rw [h mark hmem] at hmark
        cases hmark
      exact ⟨blanks, beforeTopLevel_eq_self (shielded_of_notMem hnot d), h⟩
  | cons c t ih =>
      rw [List.cons_append, beforeTopLevel, beforeTopLevel]
      split
      · exact ⟨[], rfl, isBlank_of_mem_nil⟩
      · obtain ⟨tail, htail, hblank⟩ := ih (d + depthStep c)
        exact ⟨tail, by rw [htail]; rfl, hblank⟩

theorem beforeTopLevel_blanks_append {blanks : Text} (h : ∀ c ∈ blanks, isBlank c = true)
    (hmark : isBlank mark = false) (d : Int) (t : Text) :
    beforeTopLevel mark d (blanks ++ t) = blanks ++ beforeTopLevel mark d t := by
  induction blanks with
  | nil => rfl
  | cons c blanks ih =>
      have hc := h c List.mem_cons_self
      have hne : ¬ (c = mark ∧ d = 0) := by
        rintro ⟨rfl, -⟩
        rw [hc] at hmark
        cases hmark
      rw [List.cons_append, beforeTopLevel, if_neg hne,
        depthStep_eq_zero (notMem_cutMarks_of_isBlank hc), Int.add_zero,
        ih fun c' hc' => h c' (List.mem_cons_of_mem _ hc')]
      rfl

theorem trim_beforeTopLevel_trim (hmark : isBlank mark = false) (t : Text) :
    (beforeTopLevel mark 0 t.trim).trim = (beforeTopLevel mark 0 t).trim := by
  obtain ⟨front, back, heq, hfront, hback⟩ := exists_eq_trim t
  generalize t.trim = core at heq
  subst heq
  obtain ⟨tail, htail, hblank⟩ := beforeTopLevel_append_blanks hback hmark 0 core
  rw [beforeTopLevel_blanks_append hfront hmark, trim_blanks_append hfront, htail,
    trim_append_space hblank]

/-! ## Texts whose brackets match -/

/-- The pairs of brackets that the depth counts. -/
def bracketPairs : List (Char × Char) :=
  [('<', '>'), ('(', ')'), ('[', ']'), ('{', '}')]

/-- The brackets of each pair match, and the marks stand inside some of them only. -/
structure Encloses (pairs : List (Char × Char)) (marks t : Text) : Prop where
  balanced : ∀ b ∈ pairs, Balanced b.1 b.2 t
  inside : ∀ before c after, t = before ++ c :: after → c ∈ marks →
    ∃ b ∈ pairs, before.count b.2 < before.count b.1

theorem Encloses.depth_eq_zero {marks : Text} (h : Encloses bracketPairs marks t) : depth t = 0 := by
  have hangle := (h.balanced ('<', '>') (by decide)).whole
  have hround := (h.balanced ('(', ')') (by decide)).whole
  have hsquare := (h.balanced ('[', ']') (by decide)).whole
  have hcurly := (h.balanced ('{', '}') (by decide)).whole
  dsimp only at hangle hround hsquare hcurly
  rw [depth_eq_counts]
  omega

/-- No pair of brackets closes more than it opens, so one that is open keeps the depth above zero. -/
theorem Encloses.shielded {marks : Text} (h : Encloses bracketPairs marks t) (hmark : mark ∈ marks) :
    Shielded mark 0 t := by
  intro before after ht
  have hfront : before <+: t := ⟨mark :: after, ht.symm⟩
  have hangle := (h.balanced ('<', '>') (by decide)).fronts before hfront
  have hround := (h.balanced ('(', ')') (by decide)).fronts before hfront
  have hsquare := (h.balanced ('[', ']') (by decide)).fronts before hfront
  have hcurly := (h.balanced ('{', '}') (by decide)).fronts before hfront
  obtain ⟨b, hb, hopen⟩ := h.inside before mark after ht hmark
  rw [depth_eq_counts]
  simp only [bracketPairs, List.mem_cons, List.not_mem_nil, or_false] at hb
  dsimp only at hangle hround hsquare hcurly
  rcases hb with rfl | rfl | rfl | rfl <;> dsimp only at hopen <;> omega

end Registrar.Text

namespace Registrar.Parameter

open Text

variable {s t : Text}

/-! ## Declarations of a list -/

/-- What is declared in a piece of a list: the piece without a default value. -/
def declared (piece : Text) : Text :=
  (beforeTopLevel '=' 0 piece).trim

/-- What is declared between the commas of a list, where anything is. -/
def declarations (t : Text) : List Text :=
  ((splitCommas 0 t).map declared).filter (· ≠ [])

theorem declared_trim (piece : Text) : declared piece.trim = declared piece :=
  trim_beforeTopLevel_trim (by decide) piece

/-- A list is read declaration by declaration, unless it is nothing but `void`. -/
theorem parseList_eq (hvoid : t.trim ≠ "void") :
    parseList t = (declarations t).map ofDeclaration := by
  have hpieces : t.trim.splitTopLevel.map (fun piece => (piece.beforeTopLevel '=' 0).trim) =
      (splitCommas 0 t).map declared := by
    rw [splitTopLevel, map_trim_splitCommas_trim, List.map_map]
    exact List.map_congr_left fun piece _ => declared_trim piece
  unfold parseList
  dsimp only
  split
  · next hnone =>
    obtain ⟨front, back, heq, hfront, hback⟩ := exists_eq_trim t
    have hblank : ∀ c ∈ t, isBlank c = true := by
      rw [hnone.resolve_right hvoid, List.nil_append] at heq
      rw [heq]
      exact List.forall_mem_append.mpr ⟨hfront, hback⟩
    have hempty : declared t = [] := by
      rw [← declared_trim, hnone.resolve_right hvoid]
      rfl
    rw [declarations, splitCommas_of_notMem (comma_notMem_blanks hblank), List.map_singleton, hempty]
    rfl
  · rw [hpieces]
    rfl

/-- A bare `void` declares `void`. -/
theorem trim_ne_void (h : declarations t ≠ ["void".toList]) : t.trim ≠ "void" := by
  intro hvoid
  have hpieces := map_trim_splitCommas_trim t
  apply h
  have hdeclared : (splitCommas 0 t).map declared = [declared "void"] := by
    have hmap := congrArg (List.map declared) hpieces
    rw [List.map_map, List.map_map, hvoid] at hmap
    have hsame : declared ∘ trim = declared := funext declared_trim
    rw [hsame] at hmap
    exact hmap.symm
  rw [declarations, hdeclared]
  decide

theorem declarations_append_comma (h : depth s = 0) (t : Text) :
    declarations (s ++ ',' :: t) = declarations s ++ declarations t := by
  rw [declarations, splitCommas_append_comma (by omega), List.map_append, List.filter_append]
  rfl

/-- A list with commas between its parts declares what the parts declare, when all but the last lead
back to depth zero. -/
theorem declarations_joinWith {parts : List Text} (h : ∀ p ∈ parts.dropLast, depth p = 0) :
    declarations (joinWith "," parts) = parts.flatMap declarations := by
  cases parts with
  | nil => rfl
  | cons first others =>
      rw [declarations, splitCommas_joinWith (List.cons_ne_nil _ _) h, List.map_flatMap,
        List.filter_flatMap]
      rfl

/-- A piece without a comma at depth zero declares one thing, or nothing. -/
theorem declarations_of_shielded (h : Shielded ',' 0 t) :
    declarations t = if declared t = [] then [] else [declared t] := by
  rw [declarations, splitCommas_eq_singleton h, List.map_singleton]
  split
  · next hnil => rw [List.filter_cons_of_neg (by simpa using hnil), List.filter_nil]
  · next hne => rw [List.filter_cons_of_pos (by simpa using hne), List.filter_nil]

theorem isNameChar_eq_false_of_isBlank {c : Char} (h : isBlank c = true) : isNameChar c = false := by
  have htable : ∀ n ∈ blankCodes, isNameChar (Char.ofNat n) = false := by decide +kernel
  simpa using htable c.toNat (toNat_mem_blankCodes h)

theorem isBlank_eq_false_of_isNameChar {c : Char} (h : isNameChar c = true) : isBlank c = false := by
  cases hc : isBlank c with
  | false => rfl
  | true =>
      rw [isNameChar_eq_false_of_isBlank hc] at h
      cases h

end Registrar.Parameter

namespace Registrar

open Text Parameter

/-- A parameter as it is written in a list. -/
structure WrittenParameter where
  front : Text
  type : Text
  gap : Text
  name : Text
  back : Text
  front_blank : ∀ c ∈ front, isBlank c = true
  type_ne_nil : type ≠ []
  type_trimmed : type.trim = type
  /-- The brackets of the type match, and neither a comma nor an equals sign stands outside them. -/
  type_encloses : Encloses bracketPairs ",=" type
  type_not_const : type ≠ "const"
  type_unqualified : ¬ ("::".toList <:+ type)
  gap_blank : ∀ c ∈ gap, isBlank c = true
  name_ne_nil : name ≠ []
  name_chars : ∀ c ∈ name, isNameChar c = true
  /-- White space stands between the type and the name, or the type does not end like a name. -/
  apart : gap ≠ [] ∨ ∃ c, type.getLast? = some c ∧ isNameChar c = false
  back_blank : ∀ c ∈ back, isBlank c = true

namespace WrittenParameter

variable (p : WrittenParameter)

/-- The type and the name, without white space around them. -/
def core : Text :=
  p.type ++ p.gap ++ p.name

def text : Text :=
  p.front ++ (p.core ++ p.back)

/-! ## The piece of a parameter -/

theorem name_plain : ∀ c ∈ p.name, c ∉ cutMarks ∧ c ≠ '=' := by
  have hmarks : ∀ c ∈ p.name, c ∉ cutMarks ++ ['='] :=
    fun c hc => notMem_of_class (by decide) (p.name_chars c hc)
  intro c hc
  have hnot := hmarks c hc
  rw [List.mem_append, List.mem_singleton, not_or] at hnot
  exact hnot

/-- Behind the type there is no mark, and no bracket. -/
theorem plain_behind_type : ∀ c ∈ p.gap ++ (p.name ++ p.back), c ∉ cutMarks ∧ c ≠ '=' := by
  have hblank : ∀ c, isBlank c = true → c ∉ cutMarks ∧ c ≠ '=' := by
    intro c hc
    refine ⟨notMem_cutMarks_of_isBlank hc, ?_⟩
    rintro rfl
    exact absurd hc (by decide)
  intro c hc
  rcases List.mem_append.mp hc with hc | hc
  · exact hblank c (p.gap_blank c hc)
  rcases List.mem_append.mp hc with hc | hc
  · exact p.name_plain c hc
  · exact hblank c (p.back_blank c hc)

theorem text_eq : p.text = p.front ++ (p.type ++ (p.gap ++ (p.name ++ p.back))) := by
  simp only [text, core, List.append_assoc]

theorem depth_text : depth p.text = 0 := by
  rw [text_eq, depth_append, depth_append, depth_blanks p.front_blank,
    p.type_encloses.depth_eq_zero, depth_eq_zero fun c hc => (p.plain_behind_type c hc).1]
  rfl

/-- Commas and equals signs stand in brackets of the type only. -/
theorem shielded_text {mark : Char} (hmark : mark ∈ (",=" : Text)) : Shielded mark 0 p.text := by
  have hfront : mark ∉ p.front := by
    intro hmem
    have hblank : mark ∉ (",=" : Text) := notMem_of_class (by decide) (p.front_blank mark hmem)
    exact hblank hmark
  have hbehind : mark ∉ p.gap ++ (p.name ++ p.back) := by
    intro hmem
    obtain ⟨hcut, hequals⟩ := p.plain_behind_type mark hmem
    rcases List.mem_cons.mp hmark with rfl | hmark
    · exact hcut (by decide)
    · exact hequals (List.mem_singleton.mp hmark)
  rw [text_eq]
  refine (shielded_of_notMem hfront 0).append ?_
  rw [depth_blanks p.front_blank, Int.add_zero]
  exact (p.type_encloses.shielded hmark).append (shielded_of_notMem hbehind _)

/-! ## What is read of it -/

theorem getLast?_core : ∃ c, p.core.getLast? = some c ∧ isBlank c = false := by
  refine ⟨p.name.getLast p.name_ne_nil, ?_, ?_⟩
  · rw [core, List.getLast?_append, List.getLast?_eq_some_getLast p.name_ne_nil]
    rfl
  · exact isBlank_eq_false_of_isNameChar (p.name_chars _ (List.getLast_mem p.name_ne_nil))

/-- A text that trimming leaves alone does not start with white space. -/
theorem trimStart_type : p.type.trimStart = p.type := by
  have hsuffix : p.type.trimStart <:+ p.type := List.dropWhile_suffix isBlank
  have hprefix : p.type <+: p.type.trimStart := by
    have htrim := trimEnd_isPrefix p.type.trimStart
    rwa [← trim, p.type_trimmed] at htrim
  exact hsuffix.eq_of_length_le hprefix.length_le

theorem trim_core : p.core.trim = p.core := by
  obtain ⟨c, hlast, hc⟩ := p.getLast?_core
  have hstart : p.core.trimStart = p.core := by
    rw [core, List.append_assoc, trimStart, List.dropWhile_append, ← trimStart, trimStart_type,
      if_neg (by simp [p.type_ne_nil])]
  rw [trim, hstart]
  exact trimEnd_eq_self fun d hd => by
    rw [hlast] at hd
    cases hd
    exact hc

/-- What is declared is the type and the name. -/
theorem declared_text : declared p.text = p.core := by
  rw [declared, beforeTopLevel_eq_self (p.shielded_text (by decide)), text,
    trim_blanks_append p.front_blank, trim_append_space p.back_blank, trim_core]

theorem core_ne_nil : p.core ≠ [] :=
  List.append_ne_nil_of_right_ne_nil _ p.name_ne_nil

theorem declarations_text : declarations p.text = [p.core] := by
  rw [declarations_of_shielded (p.shielded_text (by decide)), declared_text, if_neg p.core_ne_nil]

/-- What stands before the name does not end like one. -/
theorem isNameChar_before_name {c : Char} (h : (p.type ++ p.gap).getLast? = some c) :
    isNameChar c = false := by
  by_cases hnil : p.gap = []
  · obtain ⟨d, hd, hname⟩ := p.apart.resolve_left (not_not_intro hnil)
    rw [hnil, List.append_nil, hd] at h
    cases h
    exact hname
  · rw [List.getLast?_append, List.getLast?_eq_some_getLast hnil] at h
    cases h
    exact isNameChar_eq_false_of_isBlank (p.gap_blank _ (List.getLast_mem hnil))

/-- **The last word is the name, and the rest is the type.** -/
theorem ofDeclaration_core : ofDeclaration p.core = ⟨p.name, TypeName.normalize p.type⟩ := by
  have hsplit : p.core.splitTail isNameChar = (p.type ++ p.gap, p.name) :=
    splitTail_append p.name_chars fun c hc => p.isNameChar_before_name hc
  have htype : (p.type ++ p.gap).trim = p.type := by
    rw [trim_append_space p.gap_blank, p.type_trimmed]
  have hgood : ¬ (p.name = [] ∨ p.type = [] ∨ p.type = "const" ∨
      "::".toList.isSuffixOf p.type) := by
    rw [List.isSuffixOf_iff_suffix]
    simp only [not_or]
    exact ⟨p.name_ne_nil, p.type_ne_nil, p.type_not_const, p.type_unqualified⟩
  unfold ofDeclaration
  rw [hsplit]
  dsimp only
  rw [htype, if_neg hgood]

/-- A declaration with a type and a name is not a bare `void`, which is one word. -/
theorem core_ne_void : p.core ≠ "void" := by
  intro hvoid
  have hchars : ∀ c ∈ ("void" : Text), isNameChar c = true := List.all_eq_true.mp (by decide)
  have hne : p.type ++ p.gap ≠ [] := List.append_ne_nil_of_left_ne_nil p.type_ne_nil _
  have hlast := List.getLast?_eq_some_getLast hne
  have hmem : (p.type ++ p.gap).getLast hne ∈ p.core :=
    List.mem_append_left _ (List.getLast_mem hne)
  rw [hvoid] at hmem
  have hname := hchars _ hmem
  rw [p.isNameChar_before_name hlast] at hname
  cases hname

end WrittenParameter

/-- **Parameters are recovered.** From a list of written parameters with commas between them their
names and the normal forms of their types are read, in the order of the list. -/
theorem Parameter.parseList_written (params : List WrittenParameter) :
    parseList (joinWith "," (params.map WrittenParameter.text)) =
      params.map fun p => ⟨p.name, TypeName.normalize p.type⟩ := by
  have hdepth : ∀ text ∈ (params.map WrittenParameter.text).dropLast, depth text = 0 := by
    intro text htext
    obtain ⟨p, -, rfl⟩ := List.mem_map.mp ((List.dropLast_sublist _).mem htext)
    exact p.depth_text
  have hdeclarations : declarations (joinWith "," (params.map WrittenParameter.text)) =
      params.map WrittenParameter.core := by
    rw [declarations_joinWith hdepth, List.flatMap_map, List.map_eq_flatMap]
    exact congrArg List.flatten (List.map_congr_left fun p _ => p.declarations_text)
  have hvoid : declarations (joinWith "," (params.map WrittenParameter.text)) ≠ ["void".toList] := by
    rw [hdeclarations]
    intro hbare
    have hmem : "void".toList ∈ params.map WrittenParameter.core := by
      rw [hbare]
      exact List.mem_singleton.mpr rfl
    obtain ⟨p, -, hp⟩ := List.mem_map.mp hmem
    exact p.core_ne_void hp
  rw [parseList_eq (trim_ne_void hvoid), hdeclarations, List.map_map]
  exact List.map_congr_left fun p _ => p.ofDeclaration_core

/-- A template with a comma, a pointer glued to its name, and a constant behind two blanks. -/
example : parseList "TMap<FName, int32> Tags,UTexture *Tex, const  FString& Name " =
    [⟨"Tags", "TMap<FName, int32>"⟩, ⟨"Tex", "UTexture*"⟩, ⟨"Name", "const FString&"⟩] := by
  decide +kernel

end Registrar
