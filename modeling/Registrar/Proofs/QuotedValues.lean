import Registrar.Entity.Basic
import Registrar.Proofs.PropertyRecovery
import Registrar.Proofs.QuotedPairs

/-!
# Quoted values reach the entity

The arguments of a marker are read three times before their values are known: comments are cut out,
parentheses are counted, and markers are searched, and none of these heeds quotes. `QuotedClass` is
the header of a class with one property, whose marker gives a category and a tooltip in quotes. The
main statement says when both values come through as they are written, and two headers show that its
conditions cannot be left out.
-/

namespace Registrar

/-- A class with one property, whose marker gives a category and a tooltip in quotes. -/
structure QuotedClass where
  name : Text
  parent : Text
  category : Text
  tooltip : Text
  declaration : WrittenProperty
  name_ne_nil : name ≠ []
  name_word : ∀ c ∈ name, Text.isWord c = true
  parent_ne_nil : parent ≠ []
  parent_word : ∀ c ∈ parent, Text.isWord c = true
  category_plain : '"' ∉ category
  tooltip_plain : '"' ∉ tooltip
  semicolon : declaration.terminator = [';']
  reach : declaration.text.length ≤ PropertyDeclaration.window

namespace QuotedClass

open Text

variable (q : QuotedClass)

/-- The arguments of the property's marker. -/
def arguments : Text :=
  Attributes.quotedPair "Category" q.category ++
    ',' :: ' ' :: Attributes.quotedPair "Tooltip" q.tooltip

/-! ## The arguments -/

theorem pairs_arguments :
    Attributes.pairs q.arguments =
      [("Category".toList, q.category), ("Tooltip".toList, q.tooltip)] := by
  have hcomma : ∀ t, Attributes.pairs (',' :: ' ' :: t) = Attributes.pairs t := fun t =>
    (findAll_of_none rfl).trans (findAll_of_none rfl)
  have hnil : Attributes.pairs (trimStart []) = [] := by
    show findAll Attributes.takePair? [] = []
    rw [findAll]
  have htooltip : Attributes.pairs (Attributes.quotedPair "Tooltip" q.tooltip ++ []) = _ :=
    Attributes.pairs_quotedPair_append (by decide) (List.all_eq_true.mp (by decide)) q.tooltip_plain rfl
  rw [List.append_nil, hnil] at htooltip
  rw [arguments,
    Attributes.pairs_quotedPair_append (by decide) (List.all_eq_true.mp (by decide))
      q.category_plain rfl]
  show _ :: Attributes.pairs (',' :: ' ' :: _) = _
  rw [hcomma, htooltip]

theorem flags_arguments : Attributes.flags q.arguments = [] := by
  have hblank : ∀ value : Text, ∀ c ∈ value.map fun _ => ' ', c = ' ' := by simp
  have htooltip := Attributes.blankQuoted_quotedPair
    (show '"' ∉ "Tooltip".toList by decide) q.tooltip_plain []
  rw [List.append_nil] at htooltip
  rw [Attributes.flags, arguments,
    Attributes.blankQuoted_quotedPair (by decide) q.category_plain]
  show List.filterMap _ (places (_ ++ ([',', ' '] ++ Attributes.blankQuoted false _))) = _
  have hcomma : ∀ before after, (placesWithin before [',', ' '] after).filterMap
      Attributes.flagAt? = [] := by
    intro before after
    rw [placesWithin, placesWithin, placesWithin,
      List.filterMap_cons_none (Attributes.flagAt?_of_head rfl (by decide)),
      List.filterMap_cons_none (Attributes.flagAt?_of_head rfl (by decide))]
    rfl
  have hend : ∀ before, (placesFrom before (Attributes.blankQuoted false [])).filterMap
      Attributes.flagAt? = [] := by
    intro before
    simp [Attributes.blankQuoted, placesFrom, Attributes.flagAt?]
  rw [htooltip, places, placesFrom_append, placesFrom_append, placesFrom_append,
    List.filterMap_append, List.filterMap_append, List.filterMap_append, hcomma, hend,
    Attributes.flags_quotedPair (List.all_eq_true.mp (by decide)) (hblank _),
    Attributes.flags_quotedPair (List.all_eq_true.mp (by decide)) (hblank _)]
  rfl

theorem parse_arguments :
    Attributes.parse q.arguments =
      (Dict.empty.insert "Category" q.category).insert "Tooltip" q.tooltip := by
  rw [Attributes.parse, q.pairs_arguments, q.flags_arguments]
  rfl

/-- The values of the marker are those of the property. -/
theorem ofDeclaration_eq (type name : Text) :
    Property.ofDeclaration ⟨q.arguments, type, name⟩ =
      .ok { Property.bare name type with category := q.category, tooltip := q.tooltip } := by
  have hother : ∀ key : Text, key ≠ "Category".toList → key ≠ "Tooltip".toList →
      (Attributes.parse q.arguments).get? key = none := by
    intro key hc ht
    rw [q.parse_arguments, Dict.get?_insert, Dict.get?_insert, if_neg (Ne.symm ht),
      if_neg (Ne.symm hc)]
    rfl
  have hcategory : (Attributes.parse q.arguments).getD "Category" [] = q.category := by
    rw [Dict.getD, q.parse_arguments, Dict.get?_insert, Dict.get?_insert, if_neg (by decide),
      if_pos rfl]
    rfl
  have htooltip : (Attributes.parse q.arguments).getD "Tooltip" [] = q.tooltip := by
    rw [Dict.getD, q.parse_arguments, Dict.get?_insert, if_pos rfl]
    rfl
  have hflag : ∀ key : Text, key ≠ "Category".toList → key ≠ "Tooltip".toList →
      (Attributes.parse q.arguments).hasFlag key = false := by
    intro key hc ht
    rw [Attributes.hasFlag, hother key hc ht]
    rfl
  have hextra : Property.declaredExtra (Attributes.parse q.arguments) = Dict.empty := by
    rw [Property.declaredExtra, hflag _ (by decide) (by decide), hother _ (by decide) (by decide)]
    rfl
  simp only [Property.ofDeclaration]
  rw [hother "Range" (by decide) (by decide), hcategory, htooltip, hextra,
    hflag "EditAnywhere" (by decide) (by decide)]
  rfl

/-! ## The text -/

/-- The row between the class marker and the opening brace. -/
def row : Text :=
  " class " ++ (q.name ++ (" : public " ++ (q.parent ++ " ")))

/-- What stands before the property's marker. -/
def front : Text :=
  "UCLASS()" ++ (q.row ++ '{' :: " GENERATED_REFLECTION_BODY() ")

/-- What stands behind the arguments of the property's marker. -/
def back : Text :=
  ')' :: (q.declaration.text ++ " \x7d;")

/-- The header of the class. -/
def text : Text :=
  q.front ++ q.declaration.marked [] q.arguments " \x7d;"

theorem text_eq : q.text = q.front ++ ("UPROPERTY(" ++ (q.arguments ++ q.back)) := rfl

theorem notMem_name {c : Char} (h : isWord c = false) : c ∉ q.name := by
  intro hc
  rw [q.name_word c hc] at h
  cases h

theorem notMem_parent {c : Char} (h : isWord c = false) : c ∉ q.parent := by
  intro hc
  rw [q.parent_word c hc] at h
  cases h

theorem notMem_row {c : Char} (hword : isWord c = false)
    (hrow : c ∉ " class ".toList ∧ c ∉ " : public ".toList ∧ c ∉ " ".toList) : c ∉ q.row := by
  intro h
  rcases List.mem_append.mp h with h | h
  · exact hrow.1 h
  rcases List.mem_append.mp h with h | h
  · exact q.notMem_name hword h
  rcases List.mem_append.mp h with h | h
  · exact hrow.2.1 h
  rcases List.mem_append.mp h with h | h
  · exact q.notMem_parent hword h
  · exact hrow.2.2 h

theorem slash_notMem_front : '/' ∉ q.front := by
  intro h
  rcases List.mem_append.mp h with h | h
  · exact absurd h (by decide)
  rcases List.mem_append.mp h with h | h
  · exact q.notMem_row (by decide) (by decide) h
  · exact absurd h (by decide)

/-- The declaration is a row of type characters and its semicolon. -/
theorem exists_declarator : ∃ declarator, q.declaration.text = declarator ++ [';'] ∧
    ∀ c, PropertyDeclaration.isTypeChar c = false → c ∉ declarator := by
  refine ⟨_, congrArg _ q.semicolon, fun c hc hmem => ?_⟩
  rw [q.declaration.declarator_chars c hmem] at hc
  cases hc

theorem slash_notMem_back : '/' ∉ q.back := by
  obtain ⟨declarator, htext, hchars⟩ := q.exists_declarator
  have hslash := hchars '/' (by decide)
  rw [back, htext]
  simp only [List.mem_cons, List.mem_append, not_or]
  exact ⟨by decide, ⟨hslash, by decide⟩, by decide⟩

theorem getLast?_arguments : q.arguments.getLast? = some '"' := by
  have hshape : q.arguments = Attributes.quotedPair "Category" q.category ++
      ',' :: ' ' :: ("Tooltip" ++ '=' :: '"' :: q.tooltip) ++ ['"'] := by
    simp [arguments, Attributes.quotedPair]
  rw [hshape, List.getLast?_concat]

/-- Arguments without a comment leave the header as it is. -/
theorem stripComments_text (h : holdsComment q.arguments = false) :
    q.text.stripComments = q.text := by
  have hfront : '/' ∉ q.front ++ "UPROPERTY(" := by
    rw [List.mem_append, not_or]
    exact ⟨q.slash_notMem_front, by decide⟩
  have hlast : ∀ c, c ≠ '"' → q.arguments.getLast? ≠ some c := by
    intro c hc
    rw [q.getLast?_arguments]
    exact fun heq => hc (Option.some.inj heq).symm
  apply stripComments_eq_self
  rw [text_eq, ← List.append_assoc]
  exact holdsComment_between hfront q.slash_notMem_back (hlast _ (by decide)) (hlast _ (by decide)) h

/-! ## The sites -/

/-- The markers other than that of the class stand at the property or in its arguments. -/
theorem sites_text {m : Marker} (hm : m = .property ∨ m = .function ∨ m = .enum) :
    m.sites q.text =
      m.sitesWithin q.front.reverse "UPROPERTY(" (q.arguments ++ q.back) ++
        m.sitesWithin ("UPROPERTY(".toList.reverse ++ q.front.reverse) q.arguments q.back := by
  obtain ⟨declarator, htext, hchars⟩ := q.exists_declarator
  have hback : q.back = (')' :: declarator) ++ ';' :: " \x7d;" := by
    rw [back, htext]
    simp
  have hrow : '(' ∉ q.row := q.notMem_row (by decide) (by decide)
  have hdeclarator : '(' ∉ ')' :: declarator := by
    rw [List.mem_cons, not_or]
    exact ⟨by decide, hchars _ (by decide)⟩
  have hclass : ∀ after, m.sitesWithin [] "UCLASS()" after = [] := by
    rcases hm with rfl | rfl | rfl <;> exact fun _ => rfl
  have hbody : ∀ before after,
      m.sitesWithin before ('{' :: " GENERATED_REFLECTION_BODY() ") ("UPROPERTY(" ++ after) = [] := by
    rcases hm with rfl | rfl | rfl <;> exact fun _ _ => rfl
  have hend : ∀ before, m.sitesFrom before (';' :: " \x7d;") = [] := by
    rcases hm with rfl | rfl | rfl <;> exact fun _ => rfl
  have hfront : ∀ after, m.sitesWithin [] q.front ("UPROPERTY(" ++ after) = [] := by
    intro after
    show m.sitesWithin [] ("UCLASS()" ++ (q.row ++ '{' :: " GENERATED_REFLECTION_BODY() ")) _ = []
    rw [Marker.sitesWithin_append, Marker.sitesWithin_append, hclass, hbody, List.cons_append,
      m.sitesWithin_row _ _ hrow (by decide)]
    rfl
  have hafter : ∀ before, m.sitesFrom before q.back = [] := by
    intro before
    rw [hback, Marker.sitesFrom_append, hend,
      m.sitesWithin_row before _ hdeclarator (by decide)]
    rfl
  rw [text_eq, Marker.sites_eq, Marker.sitesFrom_append, hfront, Marker.sitesFrom_append,
    Marker.sitesFrom_append, hafter, List.append_nil, List.append_nil]
  rfl

/-- The site of the property's marker. -/
def site : Site :=
  ⟨⟨q.front.reverse, "UPROPERTY(" ++ (q.arguments ++ q.back)⟩, q.arguments ++ q.back⟩

theorem atWordStart_front (after : Text) : Place.atWordStart ⟨q.front.reverse, after⟩ = true := by
  have hspace : (" GENERATED_REFLECTION_BODY() " : Text) = " GENERATED_REFLECTION_BODY()" ++ [' '] :=
    by decide
  show endsWord ("UCLASS()" ++ (q.row ++ '{' :: " GENERATED_REFLECTION_BODY() ")).reverse = true
  rw [hspace, ← List.cons_append, ← List.append_assoc, ← List.append_assoc, List.reverse_append]
  rfl

theorem siteAt?_front :
    Marker.property.siteAt? ⟨q.front.reverse, "UPROPERTY(" ++ (q.arguments ++ q.back)⟩ =
      some q.site := by
  have hslash : '/' ∉ q.front.reverse := by
    rw [List.mem_reverse]
    exact q.slash_notMem_front
  refine Marker.siteAt?_eq_some_iff.mpr
    ⟨?_, q.atWordStart_front _, Place.inComment_eq_false hslash, rfl⟩
  show takeCall? _ (Marker.property.word ++ [] ++ '(' :: (q.arguments ++ q.back)) = _
  exact takeCall?_append (by simp) _

theorem sites_property :
    Marker.property.sites q.text =
      q.site :: Marker.property.sitesWithin ("UPROPERTY(".toList.reverse ++ q.front.reverse)
        q.arguments q.back := by
  have hothers : ∀ before after,
      Marker.property.sitesWithin ('U' :: before) "PROPERTY(" after = [] := fun _ _ => rfl
  have hmarker : Marker.property.sitesWithin q.front.reverse "UPROPERTY(" (q.arguments ++ q.back) =
      [q.site] := by
    have hcons : ("UPROPERTY(" : Text) = 'U' :: "PROPERTY(" := by decide
    have hfirst := q.siteAt?_front
    rw [hcons] at hfirst ⊢
    rw [Marker.sitesWithin_cons_some hfirst, hothers]
  rw [q.sites_text (Or.inl rfl), hmarker, List.singleton_append]

theorem sites_other {m : Marker} (hm : m = .function ∨ m = .enum) :
    m.sites q.text =
      m.sitesWithin ("UPROPERTY(".toList.reverse ++ q.front.reverse) q.arguments q.back := by
  have hproperty : ∀ before after, m.sitesWithin before "UPROPERTY(" after = [] := by
    rcases hm with rfl | rfl <;> exact fun _ _ => rfl
  rw [q.sites_text (Or.inr hm), hproperty, List.nil_append]

/-- A call in balanced arguments closes within them. -/
theorem exists_closing_call (hbalanced : Balanced '(' ')' q.arguments) {m : Marker} {site : Site}
    (h : site ∈ m.sitesWithin ("UPROPERTY(".toList.reverse ++ q.front.reverse) q.arguments q.back) :
    ∃ inner tail before, site.rest = inner ++ ')' :: (tail ++ q.back) ∧
      Balanced '(' ')' inner ∧ q.arguments = before ++ tail := by
  obtain ⟨p, hp, hat⟩ := List.mem_filterMap.mp h
  obtain ⟨s, t, hpart, ht, rfl⟩ := mem_placesWithin_iff.mp hp
  have hlast : t.getLast? = some '"' := by
    have hargs := q.getLast?_arguments
    rw [hpart, List.getLast?_append, List.getLast?_eq_some_getLast ht] at hargs
    rw [List.getLast?_eq_some_getLast ht]
    exact hargs
  obtain ⟨rest, hcall, hrest⟩ :=
    takeCall?_within m.word_isWord hlast (by decide) (Marker.siteAt?_eq_some_iff.mp hat).1
  obtain ⟨space, -, rfl⟩ := eq_of_takeCall? hcall
  have hopen : q.arguments = (s ++ (m.word ++ space)) ++ '(' :: rest := by
    rw [hpart]
    simp
  obtain ⟨inner, tail, rfl, hinner⟩ := (hopen ▸ hbalanced).exists_closing (by decide)
  refine ⟨inner, tail, s ++ (m.word ++ space) ++ '(' :: inner ++ [')'], ?_, hinner, ?_⟩
  · simpa using hrest
  · rw [hopen]
    simp

/-- The parenthesis that opens a parameter list comes before any closing one. -/
theorem takeHead?_within {tail after before name rest : Text}
    (h : FunctionDeclaration.takeHead? (tail ++ ')' :: after) = some (before, name, rest)) :
    ∃ head inner, tail = head ++ '(' :: inner ∧ rest = inner ++ ')' :: after := by
  obtain ⟨found, hfound, h⟩ := Option.bind_eq_some_iff.mp h
  have hrest : found = rest := by
    split at h
    split at h
    · cases h
    · cases h
      rfl
  subst hrest
  obtain ⟨head, hhead, heq⟩ := eq_of_takeChar?_dropWhile hfound
  rcases List.append_eq_append_iff.mp heq with ⟨between, rfl, hbetween⟩ | ⟨between, rfl, hbetween⟩
  · cases between with
    | nil => cases hbetween
    | cons c between =>
        cases hbetween
        have hparen := hhead ')' (by simp)
        exact absurd hparen (by decide)
  · cases between with
    | nil => cases hbetween
    | cons c between =>
        cases hbetween
        exact ⟨head, between, rfl, rfl⟩

/-- A function marker in the arguments does not fail: no parameter list is left open. -/
theorem contribution_function (hbalanced : Balanced '(' ')' q.arguments) {site : Site}
    (h : site ∈ Marker.function.sites q.text) :
    ∃ found, Header.contribution .function Header.readFunction site = .ok found := by
  rw [q.sites_other (Or.inl rfl)] at h
  obtain ⟨inner, tail, before, hrest, hinner, htail⟩ := q.exists_closing_call hbalanced h
  have harguments : Marker.function.arguments site = .ok (inner, tail ++ q.back) := by
    rw [Marker.arguments, hrest, parenthesised?_append hinner]
  rw [Header.contribution, harguments]
  show ∃ found, Header.readFunction site inner (tail ++ q.back) = .ok found
  rw [Header.readFunction]
  cases hhead : FunctionDeclaration.takeHead? (tail ++ q.back) with
  | none => exact ⟨none, rfl⟩
  | some found =>
      obtain ⟨type, name, rest⟩ := found
      obtain ⟨head, parameters, rfl, rfl⟩ := takeHead?_within hhead
      rw [← List.append_assoc] at htail
      obtain ⟨list, behind, rfl, hlist⟩ := (htail ▸ hbalanced).exists_closing (by decide)
      simp only [List.append_assoc, List.cons_append, parenthesised?_append hlist]
      split
      · exact ⟨none, rfl⟩
      · exact ⟨_, rfl⟩

/-! ## The head -/

/-- White space before a word is skipped, and no more. -/
theorem skipBlanks1?_word {word : Text} (hne : word ≠ []) (hword : ∀ c ∈ word, isWord c = true)
    (rest : Text) : skipBlanks1? (' ' :: (word ++ rest)) = some (word ++ rest) := by
  cases word with
  | nil => exact absurd rfl hne
  | cons c w =>
      have hc : ¬ isBlank c = true := by
        simp [isBlank_eq_false_of_isWord (hword c List.mem_cons_self)]
      show some (List.dropWhile isBlank (c :: (w ++ rest))) = _
      rw [List.dropWhile_cons_of_neg hc]
      rfl

theorem nameAndParent?_row (rest : Text) :
    ClassHead.nameAndParent? (q.name ++ (" : public " ++ (q.parent ++ (" " ++ rest)))) =
      some (q.name, q.parent) := by
  have hname : takeWord? (q.name ++ (" : public " ++ (q.parent ++ (" " ++ rest)))) =
      some (q.name, " : public " ++ (q.parent ++ (" " ++ rest))) :=
    takeWord?_append q.name_ne_nil q.name_word rfl
  have hparent : takeWord? (q.parent ++ (" " ++ rest)) = some (q.parent, " " ++ rest) :=
    takeWord?_append q.parent_ne_nil q.parent_word rfl
  refine Option.bind_eq_some_iff.mpr ⟨_, hname, ?_⟩
  refine Option.bind_eq_some_iff.mpr ⟨" public " ++ (q.parent ++ (" " ++ rest)), rfl, ?_⟩
  refine Option.bind_eq_some_iff.mpr ⟨' ' :: (q.parent ++ (" " ++ rest)), rfl, ?_⟩
  refine Option.bind_eq_some_iff.mpr ⟨_, skipBlanks1?_word q.parent_ne_nil q.parent_word _, ?_⟩
  exact Option.bind_eq_some_iff.mpr ⟨_, hparent, rfl⟩

/-- The class is read in front of its brace, also where its name looks like an export word. -/
theorem readClass?_row (rest : Text) :
    ClassHead.readClass? ("class " ++ (q.name ++ (" : public " ++ (q.parent ++ (" " ++ rest))))) =
      some (q.name, q.parent) := by
  have hclass : after? ("class " ++ (q.name ++ (" : public " ++ (q.parent ++ (" " ++ rest))))) "class" =
      some (' ' :: (q.name ++ (" : public " ++ (q.parent ++ (" " ++ rest))))) := rfl
  have hname : takeWord? (q.name ++ (" : public " ++ (q.parent ++ (" " ++ rest)))) =
      some (q.name, " : public " ++ (q.parent ++ (" " ++ rest))) :=
    takeWord?_append q.name_ne_nil q.name_word rfl
  have hexport : (ClassHead.skipExport? (q.name ++ (" : public " ++ (q.parent ++ (" " ++ rest))))).bind
      ClassHead.nameAndParent? = none := by
    cases hskip : ClassHead.skipExport? (q.name ++ (" : public " ++ (q.parent ++ (" " ++ rest)))) with
    | none => rfl
    | some found =>
        obtain ⟨⟨word, behind⟩, hword, hskip⟩ := Option.bind_eq_some_iff.mp hskip
        rw [hname] at hword
        cases hword
        dsimp only at hskip
        split at hskip
        · cases hskip
          rfl
        · cases hskip
  simp only [ClassHead.readClass?, hclass, Option.bind_eq_bind, Option.bind_some,
    skipBlanks1?_word q.name_ne_nil q.name_word, ClassHead.pastExport?, hexport]
  exact q.nameAndParent?_row rest

/-- The first word behind the class marker that starts a class is that of the class. -/
theorem findWord?_row (rest : Text) :
    ClassHead.findWord? ClassHead.readClass? (q.row ++ rest) = some (q.name, q.parent) := by
  have hrow : q.row ++ rest =
      ' ' :: 'c' :: ("lass " ++ (q.name ++ (" : public " ++ (q.parent ++ (" " ++ rest))))) := by
    unfold row
    simp only [List.append_assoc]
    rfl
  have hclass : ClassHead.readClass?
      ('c' :: ("lass " ++ (q.name ++ (" : public " ++ (q.parent ++ (" " ++ rest)))))) =
        some (q.name, q.parent) := q.readClass?_row rest
  rw [hrow, ClassHead.findWord?, places, placesFrom, placesFrom,
    List.findSome?_cons_of_isNone rfl, List.findSome?_cons]
  have hstart : ∀ after, Place.atWordStart ⟨[' '], after⟩ = true := fun _ => rfl
  rw [if_pos (hstart _), hclass]

/-- The head of the header is that of the class. -/
theorem readHead_row (rest : Text) :
    Header.readHead ("UCLASS()" ++ (q.row ++ rest)) =
      .ok (some ⟨.class_, q.name, q.parent, []⟩) := by
  have hcons : ("UCLASS()" : Text) = 'U' :: "CLASS()" := by decide
  have hsite : Marker.class_.siteAt? ⟨[], 'U' :: ("CLASS()" ++ (q.row ++ rest))⟩ =
      some ⟨⟨[], 'U' :: ("CLASS()" ++ (q.row ++ rest))⟩, ')' :: (q.row ++ rest)⟩ := rfl
  have hsites : ∃ later, Marker.class_.sites ("UCLASS()" ++ (q.row ++ rest)) =
      ⟨⟨[], 'U' :: ("CLASS()" ++ (q.row ++ rest))⟩, ')' :: (q.row ++ rest)⟩ :: later := by
    rw [hcons, List.cons_append, Marker.sites, places, placesFrom, List.filterMap_cons_some hsite]
    exact ⟨_, rfl⟩
  obtain ⟨later, hsites⟩ := hsites
  rw [Header.readHead, hsites]
  show Except.ok ((ClassHead.findWord? ClassHead.readClass? (q.row ++ rest)).map _) = _
  rw [q.findWord?_row]
  rfl

theorem asksForBody_text : asksForBody q.text = true := by
  have hbody : (" GENERATED_REFLECTION_BODY() " : Text) = ' ' :: "GENERATED_REFLECTION_BODY() " := by
    decide
  have htext : q.text = ("UCLASS()" ++ (q.row ++ ['{', ' '])) ++
      ("GENERATED_REFLECTION_BODY() " ++ ("UPROPERTY(" ++ (q.arguments ++ q.back))) := by
    unfold text front
    rw [hbody]
    simp only [List.append_assoc, List.cons_append, List.nil_append]
    rfl
  refine List.any_eq_true.mpr ⟨_, mem_placesFrom_iff.mpr ⟨_, _, htext, rfl⟩, ?_⟩
  have hword : ∀ t after, Place.atWordStart ⟨(t ++ ['{', ' ']).reverse ++ [], after⟩ = true := by
    intro t after
    rw [List.reverse_append]
    rfl
  simp only [← List.append_assoc, hword, Bool.true_and]
  rfl

/-! ## The entity -/

/-- A header whose arguments hold no comment fails only in its enumerations, its properties or its
functions. -/
theorem read_text (hcomment : holdsComment q.arguments = false) :
    Header.read q.text = do
      let enums ← Header.readSites .enum Header.readEnum q.text
      let properties ← Header.readSites .property
        (fun _ arguments rest => .ok (Header.readProperty arguments rest)) q.text
      let functions ← Header.readSites .function Header.readFunction q.text
      return some ⟨some ⟨.class_, q.name, q.parent, []⟩, properties, functions, enums⟩ := by
  have hhead : Header.readHead q.text = .ok (some ⟨.class_, q.name, q.parent, []⟩) := by
    have htext : q.text = "UCLASS()" ++ (q.row ++ ('{' :: " GENERATED_REFLECTION_BODY() " ++
        ("UPROPERTY(" ++ (q.arguments ++ q.back)))) := by
      unfold text front
      simp only [List.append_assoc]
      rfl
    rw [htext, q.readHead_row]
  rw [Header.read, q.stripComments_text hcomment, Header.readStripped, q.asksForBody_text, hhead]
  rfl

/-- The declaration of the class's property. -/
def declared : PropertyDeclaration :=
  ⟨q.arguments, TypeName.normalize q.declaration.type, q.declaration.name⟩

/-- The property's own marker contributes the declaration of the class's property. -/
theorem contribution_site (hbalanced : Balanced '(' ')' q.arguments) :
    Header.contribution .property
      (fun _ arguments rest => .ok (Header.readProperty arguments rest)) q.site =
        .ok (some q.declared) := by
  have hparens : q.site.rest.parenthesised? = some (q.arguments, q.declaration.text ++ " \x7d;") :=
    parenthesised?_append hbalanced _
  rw [Header.contribution, Marker.arguments, hparens]
  exact congrArg _ (q.declaration.readProperty_text q.reach q.arguments _)

/-- Arguments without a live property or enumeration marker leave the class with its one property. -/
theorem exists_read_text (hcomment : holdsComment q.arguments = false)
    (hbalanced : Balanced '(' ')' q.arguments)
    (hproperty : Marker.property.sites q.arguments = [])
    (henum : Marker.enum.sites q.arguments = []) :
    ∃ functions, Header.read q.text =
      .ok (some ⟨some ⟨.class_, q.name, q.parent, []⟩, [q.declared], functions, []⟩) := by
  have hnone : ∀ m : Marker, m.sites q.arguments = [] → ∀ before,
      m.sitesWithin before q.arguments q.back = [] := fun m hm before =>
    Marker.sitesWithin_eq_nil_of_sites q.getLast?_arguments (by decide) hm
  have henums : Header.readSites .enum Header.readEnum q.text = .ok [] := by
    rw [Header.readSites, q.sites_other (Or.inr rfl), hnone _ henum]
    rfl
  have hproperties : Header.readSites .property
      (fun _ arguments rest => .ok (Header.readProperty arguments rest)) q.text =
        .ok [q.declared] := by
    refine Header.bind_eq_ok_iff.mpr ⟨[some q.declared], Header.mapM_eq_ok_iff.mpr ?_, rfl⟩
    rw [q.sites_property, hnone _ hproperty]
    exact congrArg (fun found => [found]) (q.contribution_site hbalanced)
  obtain ⟨functions, hfunctions⟩ :=
    Header.exists_readSites_eq_ok fun site hsite => q.contribution_function hbalanced hsite
  refine ⟨functions, ?_⟩
  rw [q.read_text hcomment, henums, hproperties, hfunctions]
  rfl

/-- The entity is that of the class, and its first declared property is the class's own, with the
values of its marker. -/
def Carries (table : MacroTable) (e : Entity) (others : List Property) : Prop :=
  e.name = q.name ∧ e.parent = q.parent ∧ ∃ p : Property,
    e.properties = (Entity.objectName? table e).toList ++ p :: others ∧
    p.name = q.declaration.name ∧ p.declaredType = TypeName.normalize q.declaration.type ∧
    p.category = q.category ∧ p.tooltip = q.tooltip

/-- An entity that comes from the class's own property and others carries the values. -/
theorem carries_of_ofHead {table : MacroTable} {later : List PropertyDeclaration}
    {functions : List FunctionDeclaration} {enums : List Enumeration} {e : Entity}
    (h : Entity.ofHead table ⟨some ⟨.class_, q.name, q.parent, []⟩, q.declared :: later, functions, enums⟩
      ⟨.class_, q.name, q.parent, []⟩ = .ok e) :
    ∃ others, q.Carries table e others ∧ others.length = later.length := by
  obtain ⟨properties, hproperties, h⟩ := Header.bind_eq_ok_iff.mp h
  cases h
  have hmap := Header.mapM_eq_ok_iff.mp hproperties
  cases properties with
  | nil => cases hmap
  | cons p others =>
      rw [List.map_cons, List.map_cons, List.cons.injEq, declared, q.ofDeclaration_eq] at hmap
      have hlength := congrArg List.length hmap.2
      rw [List.length_map, List.length_map] at hlength
      cases hmap.1
      refine ⟨others.map (Property.classify table), ⟨rfl, rfl, _, rfl, rfl, rfl, rfl, rfl⟩, ?_⟩
      rw [List.length_map]
      exact hlength.symm

/-- **Quoted values reach the entity.** Let the arguments of the property's marker hold no comment,
and let their parentheses match. Then an entity that is read from the header carries the category and
the tooltip as they are written; and one is read, with no further property, when the values hold no
live call of the property or the enumeration marker. -/
theorem ofText_carries_values (table : MacroTable) (stem : Text)
    (hcomment : holdsComment q.arguments = false) (hbalanced : Balanced '(' ')' q.arguments) :
    (∀ result, Entity.ofText table stem q.text = .ok result →
      ∃ e others, result = some e ∧ q.Carries table e others) ∧
    (Marker.property.sites q.arguments = [] → Marker.enum.sites q.arguments = [] →
      ∃ e, Entity.ofText table stem q.text = .ok (some e) ∧ q.Carries table e []) := by
  constructor
  · intro result hresult
    obtain ⟨header, hheader, hresult⟩ := Header.bind_eq_ok_iff.mp hresult
    rw [q.read_text hcomment] at hheader
    obtain ⟨enums, -, hheader⟩ := Header.bind_eq_ok_iff.mp hheader
    obtain ⟨properties, hproperties, hheader⟩ := Header.bind_eq_ok_iff.mp hheader
    obtain ⟨functions, -, hheader⟩ := Header.bind_eq_ok_iff.mp hheader
    cases hheader
    obtain ⟨e, he, hresult⟩ := Header.bind_eq_ok_iff.mp hresult
    cases hresult
    have hlist := Header.readSites_eq_ok hproperties
    rw [q.sites_property, List.filterMap_cons, q.contribution_site hbalanced] at hlist
    rw [hlist] at he
    obtain ⟨others, hcarries, -⟩ := q.carries_of_ofHead he
    exact ⟨e, others, rfl, hcarries⟩
  · intro hproperty henum
    obtain ⟨functions, hread⟩ := q.exists_read_text hcomment hbalanced hproperty henum
    obtain ⟨p, hp⟩ : ∃ p, Property.ofDeclaration q.declared = .ok p := ⟨_, q.ofDeclaration_eq _ _⟩
    have hdeclared : [q.declared].mapM Property.ofDeclaration = .ok [p] :=
      Header.mapM_eq_ok_iff.mpr (congrArg (fun found => [found]) hp)
    obtain ⟨e, he⟩ : ∃ e, Entity.ofHead table
        ⟨some ⟨.class_, q.name, q.parent, []⟩, [q.declared], functions, []⟩
          ⟨.class_, q.name, q.parent, []⟩ = .ok e :=
      ⟨_, Header.bind_eq_ok_iff.mpr ⟨_, hdeclared, rfl⟩⟩
    obtain ⟨others, hcarries, hlength⟩ := q.carries_of_ofHead he
    rw [List.length_nil, List.length_eq_zero_iff] at hlength
    refine ⟨e, ?_, hlength ▸ hcarries⟩
    refine Header.bind_eq_ok_iff.mpr ⟨_, hread, ?_⟩
    exact Header.bind_eq_ok_iff.mpr ⟨e, he, rfl⟩

/-- A lamp with an intensity. -/
def lamp (category tooltip : Text) (hcategory : '"' ∉ category) (htooltip : '"' ∉ tooltip) :
    QuotedClass where
  name := "ULamp"
  parent := "UObject"
  category := category
  tooltip := tooltip
  declaration :=
    { lead := " ", type := "float", gap := " ", name := "Intensity", trail := [],
      terminator := [';'], lead_blank := isBlank_of_mem_space,
      type_chars := List.all_eq_true.mp (by decide), type_start := ⟨'f', by decide⟩,
      gap_blank := isBlank_of_mem_space, name_ne_nil := by decide,
      name_word := List.all_eq_true.mp (by decide), apart := Or.inl (by decide),
      trail_blank := isBlank_of_mem_nil, ends := .semicolon }
  name_ne_nil := by decide
  name_word := List.all_eq_true.mp (by decide)
  parent_ne_nil := by decide
  parent_word := List.all_eq_true.mp (by decide)
  category_plain := hcategory
  tooltip_plain := htooltip
  semicolon := rfl
  reach := by decide

/-- The category has a function's marker and the start of a block comment in it, the tooltip what
looks like a range. -/
theorem ofText_carries_values_lamp :
    let q := lamp "Light (UFUNCTION() void f(int)) /*" "Range=x, 50% \\ /" (by decide) (by decide)
    (holdsComment q.arguments = false ∧ Balanced '(' ')' q.arguments ∧
      Marker.property.sites q.arguments = [] ∧ Marker.enum.sites q.arguments = []) ∧
    ∃ e, Entity.ofText ⟨[]⟩ "Lamp" q.text = .ok (some e) ∧ q.Carries ⟨[]⟩ e [] := by
  intro q
  have hcomment : holdsComment q.arguments = false := by decide +kernel
  have hbalanced : Balanced '(' ')' q.arguments := by decide +kernel
  have hproperty : Marker.property.sites q.arguments = [] := by decide +kernel
  have henum : Marker.enum.sites q.arguments = [] := by decide +kernel
  exact ⟨⟨hcomment, hbalanced, hproperty, henum⟩,
    (q.ofText_carries_values ⟨[]⟩ "Lamp" hcomment hbalanced).2 hproperty henum⟩

/-- Quotes protect neither a parenthesis nor a comment: a lone parenthesis in a value leaves the
marker open, and a comment in a value is cut out of it. -/
theorem quotes_do_not_protect :
    Entity.ofText ⟨[]⟩ "Lamp" (lamp "(" "t" (by decide) (by decide)).text =
      .error (.unbalanced .property 68) ∧
    (Entity.ofText ⟨[]⟩ "Lamp" (lamp "a /**/ b" "t" (by decide) (by decide)).text).toOption.join.map
      (fun e => e.properties.map (·.category)) = some ["a  b".toList] := by
  decide +kernel

end QuotedClass

end Registrar
