import Registrar.Proofs.Brackets
import Registrar.Proofs.Sites
import Registrar.Proofs.Words

/-!
# Function declarations are recovered

`WrittenFunction` is a function declaration as the documentation writes it: specifiers, a return
type, a name, a parameter list, the words behind it and what ends the declaration. The word `const`
may stand in the return type, among the parameters and behind the list, and only the last makes the
function constant (`WrittenFunction.readTail?_ending`).

The main statement is about a whole header: a live marker before such a declaration contributes
exactly that declaration, and it does so in the order of the markers.
-/

namespace Registrar.Text

variable {c : Char} {marks : Text}

/-- Before a character that is not white space, a text without words is trimmed away. -/
theorem trimStart_of_words_eq_nil (hwords : marks.words = []) (hc : isBlank c = false)
    (rest : Text) : (marks ++ c :: rest).trimStart = c :: rest := by
  refine trimStart_blanks_append (fun d hd => ?_) hc rest
  obtain h | ⟨word, hword, -⟩ := isBlank_or_mem_words hd
  · exact h
  · rw [hwords] at hword
    cases hword

/-- Before a character that continues no word, the first word of a text is read, and the others are
left. -/
theorem takeWord?_of_words_eq_cons {word : Text} {others : List Text}
    (hwords : marks.words = word :: others) (hword : ∀ d ∈ word, isWord d = true)
    (hc : isWord c = false) (rest : Text) :
    ∃ more : Text, (marks ++ c :: rest).trimStart.takeWord? = some (word, more ++ c :: rest) ∧
      more.words = others := by
  obtain ⟨hne, hsolid⟩ := of_mem_words (hwords ▸ List.mem_cons_self : word ∈ marks.words)
  obtain ⟨blanks, more, rfl, hblanks, hmore, hothers⟩ := eq_of_words_eq_cons hwords
  have hends : endsWord (more ++ c :: rest) = true := by
    cases more with
    | nil => simp [endsWord, hc]
    | cons d r => simp [endsWord, isWord_eq_false_of_isBlank (hmore d rfl)]
  have htrim : (blanks ++ (word ++ more) ++ c :: rest).trimStart = word ++ (more ++ c :: rest) := by
    obtain ⟨d, r, rfl⟩ := List.exists_cons_of_ne_nil hne
    have hd := hsolid d List.mem_cons_self
    simpa using trimStart_blanks_append hblanks hd (r ++ (more ++ c :: rest))
  exact ⟨more, by rw [htrim, takeWord?_append hne hword hends], hothers⟩

/-- A keyword at the front is the word that is read there. -/
theorem takeKeyword?_eq_some_iff {t word rest : Text} (hne : word ≠ [])
    (hword : ∀ d ∈ word, isWord d = true) :
    t.takeKeyword? word = some rest ↔ t.takeWord? = some (word, rest) := by
  rw [takeKeyword?]
  constructor
  · intro h
    split at h
    · next found hfound =>
      split at h
      · next hends =>
        cases h
        rw [after?_eq_some_iff.mp hfound, takeWord?_append hne hword hends]
      · cases h
    · cases h
  · intro h
    obtain ⟨rfl, hends⟩ := eq_of_takeWord? h
    rw [after?_eq_some_iff.mpr rfl]
    exact if_pos hends

end Registrar.Text

namespace Registrar

/-- What ends a function declaration: a semicolon, the brace that opens a body, or the mark of a
pure function. -/
inductive FunctionEnd : Text → Prop
  | semicolon : FunctionEnd [';']
  | body : FunctionEnd ['{']
  | pure (before after : Text) (hbefore : ∀ c ∈ before, Text.isBlank c = true)
      (hafter : ∀ c ∈ after, Text.isBlank c = true) :
      FunctionEnd ('=' :: before ++ '0' :: after ++ [';'])

/-- A function declaration as it is written after a marker. -/
structure WrittenFunction where
  front : Text
  returnType : Text
  gap : Text
  name : Text
  trail : Text
  parameters : Text
  isConst : Bool
  qualifiers : List Text
  marks : Text
  ending : Text
  /-- Specifiers in any number and order stand before the return type. -/
  front_words : ∀ word ∈ front.words, word ∈ FunctionDeclaration.specifiers
  /-- White space stands between the specifiers and the return type. -/
  front_apart : ∀ c, front.getLast? = some c → Text.isBlank c = true
  returnType_chars : ∀ c ∈ returnType, c ∉ [';', '{', '}', '(', ')']
  /-- The return type is not empty, and its first word is no specifier. -/
  returnType_start : ∃ word others, returnType.words = word :: others ∧
    word ∉ FunctionDeclaration.specifiers
  gap_blank : ∀ c ∈ gap, Text.isBlank c = true
  name_ne_nil : name ≠ []
  name_word : ∀ c ∈ name, Text.isWord c = true
  /-- White space stands between the return type and the name, or the return type ends in no word
  character. -/
  apart : gap ≠ [] ∨ ∃ c, returnType.getLast? = some c ∧ Text.isWord c = false
  trail_blank : ∀ c ∈ trail, Text.isBlank c = true
  parameters_balanced : Text.Balanced '(' ')' parameters
  qualifiers_known : ∀ word ∈ qualifiers, word ∈ FunctionDeclaration.qualifiers
  /-- Behind the parameters stand the word `const` or not, and then the qualifiers. -/
  marks_words : marks.words = (if isConst then ["const".toList] else []) ++ qualifiers
  ends : FunctionEnd ending

namespace FunctionEnd

/-- What ends a declaration starts with a character that belongs to no word. -/
theorem exists_cons {t : Text} (h : FunctionEnd t) :
    ∃ c r, t = c :: r ∧ Text.isBlank c = false ∧ Text.isWord c = false := by
  cases h with
  | semicolon => exact ⟨';', [], rfl, by decide, by decide⟩
  | body => exact ⟨'{', [], rfl, by decide, by decide⟩
  | pure before after _ _ => exact ⟨'=', _, rfl, by decide, by decide⟩

/-- What ends a declaration does so whatever follows. -/
theorem terminates {t : Text} (h : FunctionEnd t) (rest : Text) :
    FunctionDeclaration.terminates (t ++ rest) = true := by
  cases h with
  | semicolon => rfl
  | body => rfl
  | pure before after hbefore hafter =>
      have hzero : (before ++ '0' :: (after ++ ';' :: rest)).trimStart =
          '0' :: (after ++ ';' :: rest) :=
        Text.trimStart_blanks_append hbefore (by decide) _
      have hsemicolon : (after ++ ';' :: rest).trimStart = ';' :: rest :=
        Text.trimStart_blanks_append hafter (by decide) _
      simp [FunctionDeclaration.terminates, hzero, hsemicolon, Text.takeChar?]

end FunctionEnd

namespace FunctionDeclaration

theorem isWord_of_mem_qualifiers {word : Text} (h : word ∈ qualifiers) :
    ∀ c ∈ word, Text.isWord c = true := by
  have hall : ∀ word ∈ qualifiers, word.all Text.isWord = true := by decide
  exact List.all_eq_true.mp (hall word h)

/-- Qualifiers are skipped up to what is neither white space nor part of a word. -/
theorem skipQualifiers_marks {words : List Text} {marks : Text} {c : Char}
    (hknown : ∀ word ∈ words, word ∈ qualifiers) (hmarks : marks.words = words)
    (hblank : Text.isBlank c = false) (hword : Text.isWord c = false) (rest : Text) :
    skipQualifiers (marks ++ c :: rest).trimStart = c :: rest := by
  induction words generalizing marks with
  | nil =>
      have hnone := Text.takeWord?_eq_none hword rest
      rw [Text.trimStart_of_words_eq_nil hmarks hblank, skipQualifiers]
      split
      · next found after hfound =>
        rw [hnone] at hfound
        cases hfound
      · rfl
  | cons word others ih =>
      have hqualifier := hknown word List.mem_cons_self
      obtain ⟨more, hread, hmore⟩ := Text.takeWord?_of_words_eq_cons hmarks
        (isWord_of_mem_qualifiers hqualifier) hword rest
      rw [skipQualifiers]
      split
      · next found after hfound =>
        rw [hread] at hfound
        cases hfound
        rw [if_pos hqualifier]
        exact ih (fun w hw => hknown w (List.mem_cons_of_mem _ hw)) hmore
      · next hnone =>
        rw [hread] at hnone
        cases hnone

end FunctionDeclaration

namespace WrittenFunction

variable (w : WrittenFunction)

/-- The text of the declaration, through what ends it. -/
def text : Text :=
  w.front ++ w.returnType ++ w.gap ++ w.name ++ w.trail ++
    '(' :: (w.parameters ++ ')' :: (w.marks ++ w.ending))

/-- The declaration behind a function marker with arguments, and what follows it. -/
def marked (space arguments rest : Text) : Text :=
  Marker.function.word ++ space ++ '(' :: (arguments ++ ')' :: (w.text ++ rest))

/-- The declaration that is to be recovered. -/
def declaration (arguments : Text) : FunctionDeclaration :=
  ⟨arguments, TypeName.normalize w.returnType, w.name, w.parameters.trim, w.isConst⟩

/-! ## Behind the parameters -/

/-- **Only `const` behind the parameters counts.** What follows the parameter list says that the
function is constant exactly when the word was written there. -/
theorem readTail?_ending (rest : Text) :
    FunctionDeclaration.readTail? (w.marks ++ (w.ending ++ rest)) = some w.isConst := by
  obtain ⟨c, r, hending, hblank, hword⟩ := w.ends.exists_cons
  have hterminates : FunctionDeclaration.terminates (c :: (r ++ rest)) = true := by
    have hends := w.ends.terminates rest
    rwa [hending] at hends
  have hconst : ("const" : Text) ≠ [] ∧ ∀ d ∈ ("const" : Text), Text.isWord d = true :=
    ⟨by decide, List.all_eq_true.mp (by decide)⟩
  have hmarks := w.marks_words
  rw [hending, List.cons_append, FunctionDeclaration.readTail?]
  cases hc : w.isConst with
  | true =>
      rw [hc, if_pos rfl, List.singleton_append] at hmarks
      obtain ⟨more, hread, hmore⟩ :=
        Text.takeWord?_of_words_eq_cons hmarks hconst.2 hword (r ++ rest)
      rw [(Text.takeKeyword?_eq_some_iff hconst.1 hconst.2).mpr hread]
      simp only
      rw [FunctionDeclaration.skipQualifiers_marks w.qualifiers_known hmore hblank hword,
        if_pos hterminates]
  | false =>
      rw [hc, if_neg Bool.false_ne_true, List.nil_append] at hmarks
      have hnone : (w.marks ++ c :: (r ++ rest)).trimStart.takeKeyword? "const" = none := by
        refine Option.eq_none_iff_forall_ne_some.mpr fun after hafter => ?_
        rw [Text.takeKeyword?_eq_some_iff hconst.1 hconst.2] at hafter
        cases hq : w.qualifiers with
        | nil =>
            rw [hq] at hmarks
            rw [Text.trimStart_of_words_eq_nil hmarks hblank,
              Text.takeWord?_eq_none hword] at hafter
            cases hafter
        | cons first others =>
            rw [hq] at hmarks
            have hfirst := w.qualifiers_known first (hq ▸ List.mem_cons_self)
            obtain ⟨more, hread, -⟩ := Text.takeWord?_of_words_eq_cons hmarks
              (FunctionDeclaration.isWord_of_mem_qualifiers hfirst) hword (r ++ rest)
            rw [hread] at hafter
            cases hafter
            exact absurd hfirst (by decide)
      rw [hnone]
      simp only
      rw [FunctionDeclaration.skipQualifiers_marks w.qualifiers_known hmarks hblank hword,
        if_pos hterminates]

/-! ## Before the parameters -/

/-- The words before the name are the specifiers and then those of the return type. -/
theorem words_before_name :
    (w.front ++ w.returnType ++ w.gap).words = w.front.words ++ w.returnType.words := by
  rw [Text.words_append_blanks w.gap_blank]
  rcases List.eq_nil_or_concat w.front with hfront | ⟨first, c, hfront⟩
  · simp [hfront, Text.words_blanks Text.isBlank_of_mem_nil]
  · have hc : Text.isBlank c = true := w.front_apart c (by simp [hfront])
    have hlast := Text.words_append_blank hc first []
    rw [Text.words_blanks Text.isBlank_of_mem_nil, List.append_nil] at hlast
    rw [hfront, List.concat_eq_append, hlast, List.append_assoc, List.singleton_append,
      Text.words_append_blank hc]

/-- Without the specifiers the return type is left. -/
theorem stripSpecifiers_before_name :
    FunctionDeclaration.stripSpecifiers (w.front ++ w.returnType ++ w.gap) =
      TypeName.normalize w.returnType := by
  obtain ⟨word, others, hwords, hword⟩ := w.returnType_start
  have hfront : ∀ word ∈ w.front.words, FunctionDeclaration.specifiers.contains word = true :=
    fun word h => List.contains_iff_mem.mpr (w.front_words word h)
  have hdrop : w.returnType.words.dropWhile FunctionDeclaration.specifiers.contains =
      w.returnType.words := by
    rw [hwords, List.dropWhile_cons_of_neg (by simpa using hword)]
  rw [FunctionDeclaration.stripSpecifiers, words_before_name,
    List.dropWhile_append_of_pos hfront, hdrop, TypeName.normalize_joinWith_words]

theorem normalize_returnType_ne_nil : TypeName.normalize w.returnType ≠ [] := by
  obtain ⟨word, others, hwords, -⟩ := w.returnType_start
  exact TypeName.normalize_ne_nil (by simp [hwords])

/-- The declaration up to its parameters has none of the characters that end a head. -/
theorem head_chars : ∀ c ∈ w.front ++ w.returnType ++ w.gap ++ w.name ++ w.trail,
    c ∉ [';', '{', '}', '(', ')'] := by
  have hblank : ∀ c, Text.isBlank c = true → c ∉ [';', '{', '}', '(', ')'] := fun _ =>
    Text.notMem_of_class (by decide)
  have hword : ∀ c, Text.isWord c = true → c ∉ [';', '{', '}', '(', ')'] := fun _ =>
    Text.notMem_of_class (by decide)
  have hspecifiers : ∀ word ∈ FunctionDeclaration.specifiers, word.all Text.isWord = true := by
    decide
  intro c hc
  simp only [List.mem_append] at hc
  obtain (((h | h) | h) | h) | h := hc
  · obtain hb | ⟨word, hmem, hin⟩ := Text.isBlank_or_mem_words h
    · exact hblank c hb
    · exact hword c (List.all_eq_true.mp (hspecifiers word (w.front_words word hmem)) c hin)
  · exact w.returnType_chars c h
  · exact hblank c (w.gap_blank c h)
  · exact hword c (w.name_word c h)
  · exact hblank c (w.trail_blank c h)

/-- The head is read up to the parenthesis of the parameters. -/
theorem takeHead?_text (rest : Text) :
    FunctionDeclaration.takeHead? (w.text ++ rest) =
      some (w.front ++ w.returnType ++ w.gap, w.name,
        w.parameters ++ ')' :: (w.marks ++ (w.ending ++ rest))) := by
  let inHead (c : Char) : Bool := c ∉ [';', '{', '}', '(', ')']
  have hshape : w.text ++ rest = (w.front ++ w.returnType ++ w.gap ++ w.name ++ w.trail) ++
      '(' :: (w.parameters ++ ')' :: (w.marks ++ (w.ending ++ rest))) := by
    simp [text]
  have hhead : ∀ c ∈ w.front ++ w.returnType ++ w.gap ++ w.name ++ w.trail, inHead c = true :=
    fun c hc => decide_eq_true (w.head_chars c hc)
  have htake : (w.text ++ rest).takeWhile inHead =
      w.front ++ w.returnType ++ w.gap ++ w.name ++ w.trail := by
    rw [hshape, List.takeWhile_append_of_pos hhead, List.takeWhile_cons_of_neg (by decide),
      List.append_nil]
  have hdrop : (w.text ++ rest).dropWhile inHead =
      '(' :: (w.parameters ++ ')' :: (w.marks ++ (w.ending ++ rest))) := by
    rw [hshape, List.dropWhile_append_of_pos hhead, List.dropWhile_cons_of_neg (by decide)]
  have hsplit : Text.splitTail Text.isWord (Text.trimEnd
      (w.front ++ w.returnType ++ w.gap ++ w.name ++ w.trail)) =
        (w.front ++ w.returnType ++ w.gap, w.name) := by
    refine Text.splitTail_trimEnd_name w.gap_blank w.name_ne_nil w.name_word ?_ w.trail_blank
    apply w.apart.imp_right
    rintro ⟨c, hc, hword⟩
    exact ⟨c, by rw [List.getLast?_append, hc]; rfl, hword⟩
  rw [← htake] at hsplit
  refine Option.bind_eq_some_iff.mpr ⟨_, congrArg (Text.takeChar? '(') hdrop, ?_⟩
  dsimp only
  rw [hsplit]
  exact if_neg w.name_ne_nil

/-- **A declaration is read back**, whatever follows it. -/
theorem readFunction_text (site : Site) (arguments rest : Text) :
    Header.readFunction site arguments (w.text ++ rest) = .ok (some (w.declaration arguments)) := by
  rw [Header.readFunction, w.takeHead?_text]
  simp only
  rw [w.stripSpecifiers_before_name, if_neg w.normalize_returnType_ne_nil,
    Text.parenthesised?_append w.parameters_balanced]
  simp only
  rw [w.readTail?_ending]
  rfl

end WrittenFunction

namespace Header

open Text

/-- The declaration that a site of the function marker contributes. -/
def functionAt (site : Site) : Option FunctionDeclaration :=
  (contribution .function readFunction site).toOption.join

/-- The functions of a header with a class head are what the sites of the function marker
contribute, in their order. -/
theorem functions_eq {t : Text} {header : Header} {head : ClassHead}
    (h : read t = .ok (some header)) (hhead : header.head = some head) :
    header.functions = (Marker.function.sites t.stripComments).filterMap functionAt :=
  readSites_eq_ok (readStripped_eq_ok h hhead).2.2.2

/-- **Function declarations are recovered exactly.** In a header with a class head, a live function
marker with balanced arguments, before a declaration, contributes that declaration and nothing else:
the arguments, the return type in its normal form without the specifiers, the name, the parameters
without white space around them, and whether `const` stands behind them. The declarations of the
header stand in the order of their markers. -/
theorem read_recovers_function (w : WrittenFunction) (before space arguments rest : Text)
    {t : Text} {header : Header} {head : ClassHead}
    (hread : read t = .ok (some header)) (hhead : header.head = some head)
    (htext : t.stripComments = before ++ w.marked space arguments rest)
    (hspace : ∀ c ∈ space, isBlank c = true) (hbalanced : Balanced '(' ')' arguments)
    (hword : Place.atWordStart ⟨before.reverse, w.marked space arguments rest⟩ = true)
    (hlive : Place.inComment ⟨before.reverse, w.marked space arguments rest⟩ = false) :
    ∃ (earlier later : List Site) (site : Site),
      Marker.function.sites t.stripComments = earlier ++ site :: later ∧
      site.place = ⟨before.reverse, w.marked space arguments rest⟩ ∧
      (∀ s ∈ earlier, s.place.offset < site.place.offset) ∧
      (∀ s ∈ later, site.place.offset < s.place.offset) ∧
      header.functions = earlier.filterMap functionAt ++
        ⟨arguments, TypeName.normalize w.returnType, w.name, w.parameters.trim, w.isConst⟩ ::
          later.filterMap functionAt := by
  have hcall : takeCall? Marker.function.word (w.marked space arguments rest) = _ :=
    takeCall?_append hspace _
  obtain ⟨earlier, later, hsites, hearlier, hlater⟩ :=
    Marker.sites_append_call hcall hword hlive
  have hdeclared : functionAt ⟨⟨before.reverse, w.marked space arguments rest⟩,
      arguments ++ ')' :: (w.text ++ rest)⟩ = some (w.declaration arguments) := by
    rw [functionAt, contribution, Marker.arguments, parenthesised?_append hbalanced]
    exact congrArg (fun found => found.toOption.join) (w.readFunction_text _ arguments rest)
  refine ⟨earlier, later, _, htext ▸ hsites, rfl, hearlier, hlater, ?_⟩
  rw [functions_eq hread hhead, htext, hsites, List.filterMap_append,
    List.filterMap_cons_some hdeclared]
  rfl

/-- A pure function with `const` in all three places, and a call among its parameters. -/
def writtenGetter : WrittenFunction where
  front := "\n FORCEINLINE virtual "
  returnType := "const TMap<A , B> &"
  gap := []
  name := "Get"
  trail := " "
  parameters := " const int& x = f(1) "
  isConst := true
  qualifiers := ["override", "final"]
  marks := "const override\tfinal "
  ending := "= 0 ;"
  front_words := by decide +kernel
  front_apart c hc := by
    cases hc
    decide
  returnType_chars := Text.forall_mem_of_all (by decide)
  returnType_start := ⟨"const", ["TMap<A", ",", "B>", "&"], by decide +kernel, by decide⟩
  gap_blank := Text.isBlank_of_mem_nil
  name_ne_nil := by decide
  name_word := List.all_eq_true.mp (by decide)
  apart := Or.inr ⟨'&', by decide⟩
  trail_blank := Text.isBlank_of_mem_space
  parameters_balanced := by decide +kernel
  qualifiers_known := by decide
  marks_words := by decide +kernel
  ends := .pure " " " " Text.isBlank_of_mem_space Text.isBlank_of_mem_space

/-- Behind the function stands one that has `const` in its return type and its parameters only. -/
theorem read_recovers_function_getter :
    let before : Text := "UCLASS() class L : public P \x7b GENERATED_REFLECTION_BODY() "
    let rest : Text := " UFUNCTION() static const int Max(const int a) final;"
    let t : Text := before ++ writtenGetter.marked " " "LuaBind, Meta=(1)" rest
    ∃ header : Header,
      (read t = .ok (some header) ∧ header.head.isSome) ∧
      ∃ front back, header.functions = front ++
        ⟨"LuaBind, Meta=(1)", "const TMap<A , B>&", "Get", "const int& x = f(1)", true⟩ :: back := by
  intro before rest t
  let header : Header := ⟨some ⟨.class_, "L", "P", []⟩, [],
    [⟨"LuaBind, Meta=(1)", "const TMap<A , B>&", "Get", "const int& x = f(1)", true⟩,
      ⟨[], "const int", "Max", "const int a", false⟩], []⟩
  have hread : read t = .ok (some header) := by decide +kernel
  obtain ⟨earlier, later, site, -, -, -, -, hfunctions⟩ :=
    read_recovers_function writtenGetter before " " "LuaBind, Meta=(1)" rest hread rfl
      (by decide +kernel) (List.all_eq_true.mp (by decide)) (by decide +kernel)
      (by decide +kernel) (by decide +kernel)
  have htype : TypeName.normalize writtenGetter.returnType = "const TMap<A , B>&" := by
    decide +kernel
  have hparameters : writtenGetter.parameters.trim = "const int& x = f(1)" := by decide +kernel
  have hname : writtenGetter.name = "Get" := rfl
  have hconst : writtenGetter.isConst = true := rfl
  rw [htype, hparameters, hname, hconst] at hfunctions
  refine ⟨header, ⟨hread, rfl⟩, ?_⟩
  exact ⟨earlier.filterMap functionAt, later.filterMap functionAt, hfunctions⟩

end Header

end Registrar
