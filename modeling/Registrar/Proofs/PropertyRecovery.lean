import Registrar.Proofs.Brackets
import Registrar.Proofs.Sites
import Registrar.Proofs.Words

/-!
# Property declarations are recovered

`WrittenProperty` is a property declaration as the documentation writes it: a type, a name and a
terminator, with white space between them. Whatever follows it, its type and its name are read back
(`WrittenProperty.read?_text`).

The main statement is about a whole header: a live marker before such a declaration contributes
exactly that declaration, and it does so in the order of the markers.
-/

namespace Registrar

/-- What ends a property declaration: a semicolon, the equals sign of an initial value, or an
initialiser in braces. -/
inductive Terminator : Text → Prop
  | semicolon : Terminator [';']
  | equals : Terminator ['=']
  | braces (inner : Text) (h : '}' ∉ inner) : Terminator ('{' :: inner ++ ['}'])

/-- A property declaration as it is written after a marker. -/
structure WrittenProperty where
  lead : Text
  type : Text
  gap : Text
  name : Text
  trail : Text
  terminator : Text
  lead_blank : ∀ c ∈ lead, Text.isBlank c = true
  type_chars : ∀ c ∈ type, PropertyDeclaration.isTypeChar c = true
  /-- The type is not empty and does not start with white space. -/
  type_start : ∃ c, type.head? = some c ∧ Text.isBlank c = false
  gap_blank : ∀ c ∈ gap, Text.isBlank c = true
  name_ne_nil : name ≠ []
  name_word : ∀ c ∈ name, Text.isWord c = true
  /-- White space stands between the type and the name, or the type ends in no word character. -/
  apart : gap ≠ [] ∨ ∃ c, type.getLast? = some c ∧ Text.isWord c = false
  trail_blank : ∀ c ∈ trail, Text.isBlank c = true
  ends : Terminator terminator

namespace PropertyDeclaration

theorem isTypeChar_of_isBlank {c : Char} (hc : Text.isBlank c = true) : isTypeChar c = true := by
  simp [isTypeChar, hc]

theorem isTypeChar_of_isWord {c : Char} (hc : Text.isWord c = true) : isTypeChar c = true := by
  simp [isTypeChar, hc]

end PropertyDeclaration

namespace WrittenProperty

open PropertyDeclaration (isTypeChar_of_isBlank isTypeChar_of_isWord)

variable (w : WrittenProperty)

/-- The text of the declaration, through its terminator. -/
def text : Text :=
  w.lead ++ w.type ++ w.gap ++ w.name ++ w.trail ++ w.terminator

/-- The declaration behind a property marker with arguments, and what follows it. -/
def marked (space arguments rest : Text) : Text :=
  Marker.property.word ++ space ++ '(' :: (arguments ++ ')' :: (w.text ++ rest))

theorem type_ne_nil : w.type ≠ [] := by
  obtain ⟨c, hc, -⟩ := w.type_start
  intro h
  rw [h] at hc
  cases hc

/-- The declaration up to its terminator is the row of type characters at the front. -/
theorem declarator_chars : ∀ c ∈ w.lead ++ w.type ++ w.gap ++ w.name ++ w.trail,
    PropertyDeclaration.isTypeChar c = true := by
  intro c hc
  simp only [List.mem_append] at hc
  obtain (((h | h) | h) | h) | h := hc
  · exact isTypeChar_of_isBlank (w.lead_blank c h)
  · exact w.type_chars c h
  · exact isTypeChar_of_isBlank (w.gap_blank c h)
  · exact isTypeChar_of_isWord (w.name_word c h)
  · exact isTypeChar_of_isBlank (w.trail_blank c h)

end WrittenProperty

namespace Terminator

/-- A terminator starts with a character that belongs to no type. -/
theorem exists_cons {t : Text} (h : Terminator t) :
    ∃ c r, t = c :: r ∧ PropertyDeclaration.isTypeChar c = false := by
  cases h with
  | semicolon => exact ⟨';', [], rfl, by decide⟩
  | equals => exact ⟨'=', [], rfl, by decide⟩
  | braces inner _ => exact ⟨'{', inner ++ ['}'], rfl, by decide⟩

/-- A terminator ends a declaration, whatever follows. -/
theorem terminates {t : Text} (h : Terminator t) (rest : Text) :
    PropertyDeclaration.terminates (t ++ rest) = true := by
  cases h with
  | semicolon => rfl
  | equals => rfl
  | braces inner _ => simp [PropertyDeclaration.terminates]

end Terminator

/-- A row of type characters that ends in a word, with white space or a character that belongs to no
word before it, is read up to its terminator as a type and a name, whatever follows. -/
theorem PropertyDeclaration.read?_declarator {front gap name trail terminator : Text}
    (hchars : ∀ c ∈ front ++ gap ++ name ++ trail, isTypeChar c = true)
    (hne : front ++ gap ≠ []) (hgap : ∀ c ∈ gap, Text.isBlank c = true) (hname : name ≠ [])
    (hword : ∀ c ∈ name, Text.isWord c = true)
    (hapart : gap ≠ [] ∨ ∃ c, front.getLast? = some c ∧ Text.isWord c = false)
    (htrail : ∀ c ∈ trail, Text.isBlank c = true) (hterm : Terminator terminator) (rest : Text) :
    read? (front ++ gap ++ name ++ trail ++ (terminator ++ rest)) =
      some (TypeName.normalize (front ++ gap), name) := by
  obtain ⟨c, r, hcons, hc⟩ := hterm.exists_cons
  have hstop : ¬ isTypeChar c = true := by simp [hc]
  have htake : (front ++ gap ++ name ++ trail ++ (terminator ++ rest)).takeWhile isTypeChar =
      front ++ gap ++ name ++ trail := by
    rw [hcons, List.takeWhile_append_of_pos hchars, List.cons_append,
      List.takeWhile_cons_of_neg hstop, List.append_nil]
  have hdrop : (front ++ gap ++ name ++ trail ++ (terminator ++ rest)).dropWhile isTypeChar =
      terminator ++ rest := by
    rw [hcons, List.dropWhile_append_of_pos hchars, List.cons_append,
      List.dropWhile_cons_of_neg hstop]
  rw [read?, htake, hdrop, Text.splitTail_trimEnd_name hgap hname hword hapart htrail]
  exact if_pos ⟨hne, hname, hterm.terminates rest⟩

namespace WrittenProperty

variable (w : WrittenProperty)

/-- **A declaration is read back.** The type comes in its normal form, and what follows the
terminator does not matter. -/
theorem read?_text (rest : Text) :
    PropertyDeclaration.read? (w.text ++ rest) = some (TypeName.normalize w.type, w.name) := by
  have hne : w.lead ++ w.type ++ w.gap ≠ [] := by
    simp [w.type_ne_nil]
  have hapart : w.gap ≠ [] ∨ ∃ c, (w.lead ++ w.type).getLast? = some c ∧ Text.isWord c = false :=
    w.apart.imp_right fun ⟨c, hc, hword⟩ => ⟨c, by rw [List.getLast?_append, hc]; rfl, hword⟩
  rw [text, List.append_assoc _ w.terminator,
    PropertyDeclaration.read?_declarator w.declarator_chars hne w.gap_blank w.name_ne_nil
      w.name_word hapart w.trail_blank w.ends,
    TypeName.normalize_between_blanks w.lead_blank w.gap_blank]

/-- A declaration within reach of its marker is the property that the marker declares. -/
theorem readProperty_text (hreach : w.text.length ≤ PropertyDeclaration.window)
    (arguments rest : Text) :
    Header.readProperty arguments (w.text ++ rest) =
      some ⟨arguments, TypeName.normalize w.type, w.name⟩ := by
  rw [Header.readProperty, List.take_append, List.take_of_length_le hreach, w.read?_text]
  rfl

end WrittenProperty

namespace Header

open Text

/-- The declaration that a site of the property marker contributes. -/
def declaredAt (site : Site) : Option PropertyDeclaration :=
  site.rest.parenthesised?.bind fun (arguments, rest) => readProperty arguments rest

theorem contribution_property (site : Site) :
    (contribution .property (fun _ arguments rest => .ok (readProperty arguments rest))
      site).toOption.join = declaredAt site := by
  rw [contribution, Marker.arguments, declaredAt]
  cases site.rest.parenthesised? with
  | none => rfl
  | some found => rfl

/-- The properties of a header with a class head are what the sites of the property marker
contribute, in their order. -/
theorem properties_eq {t : Text} {header : Header} {head : ClassHead}
    (h : read t = .ok (some header)) (hhead : header.head = some head) :
    header.properties = (Marker.property.sites t.stripComments).filterMap declaredAt := by
  have hsites := readSites_eq_ok (readStripped_eq_ok h hhead).2.2.1
  simpa only [contribution_property] using hsites

/-- **Property declarations are recovered exactly.** In a header with a class head, a live property
marker with balanced arguments, before a declaration that reaches no further than the window,
contributes that declaration and nothing else; and the declarations of the header stand in the order
of their markers. -/
theorem read_recovers_property (w : WrittenProperty) (before space arguments rest : Text)
    {t : Text} {header : Header} {head : ClassHead}
    (hread : read t = .ok (some header)) (hhead : header.head = some head)
    (htext : t.stripComments = before ++ w.marked space arguments rest)
    (hspace : ∀ c ∈ space, isBlank c = true) (hbalanced : Balanced '(' ')' arguments)
    (hreach : w.text.length ≤ 200)
    (hword : Place.atWordStart ⟨before.reverse, w.marked space arguments rest⟩ = true)
    (hlive : Place.inComment ⟨before.reverse, w.marked space arguments rest⟩ = false) :
    ∃ (earlier later : List Site) (site : Site),
      Marker.property.sites t.stripComments = earlier ++ site :: later ∧
      site.place = ⟨before.reverse, w.marked space arguments rest⟩ ∧
      (∀ s ∈ earlier, s.place.offset < site.place.offset) ∧
      (∀ s ∈ later, site.place.offset < s.place.offset) ∧
      header.properties = earlier.filterMap declaredAt ++
        ⟨arguments, TypeName.normalize w.type, w.name⟩ :: later.filterMap declaredAt := by
  have hcall : takeCall? Marker.property.word (w.marked space arguments rest) = _ :=
    takeCall?_append hspace _
  obtain ⟨earlier, later, hsites, hearlier, hlater⟩ :=
    Marker.sites_append_call hcall hword hlive
  have hdeclared : declaredAt ⟨⟨before.reverse, w.marked space arguments rest⟩,
      arguments ++ ')' :: (w.text ++ rest)⟩ =
        some ⟨arguments, TypeName.normalize w.type, w.name⟩ := by
    rw [declaredAt, parenthesised?_append hbalanced, Option.bind_some]
    exact w.readProperty_text hreach arguments rest
  refine ⟨earlier, later, _, htext ▸ hsites, rfl, hearlier, hlater, ?_⟩
  rw [properties_eq hread hhead, htext, hsites, List.filterMap_append,
    List.filterMap_cons_some hdeclared]

/-- A map with the star of a pointer at its name and an initialiser in braces. -/
def writtenMap : WrittenProperty where
  lead := "\n "
  type := "TMap<A , B> *"
  gap := []
  name := "Lights"
  trail := " "
  terminator := "\x7b(;\x7d"
  lead_blank := List.all_eq_true.mp (by decide)
  type_chars := List.all_eq_true.mp (by decide)
  type_start := ⟨'T', by decide⟩
  gap_blank := Text.isBlank_of_mem_nil
  name_ne_nil := by decide
  name_word := List.all_eq_true.mp (by decide)
  apart := Or.inr ⟨'*', by decide⟩
  trail_blank := Text.isBlank_of_mem_space
  ends := .braces ['(', ';'] (by decide)

/-- The map stands between two other declarations, and its marker has brackets among its
arguments. -/
theorem read_recovers_property_map :
    let before : Text := "UCLASS() class L : public P \x7b GENERATED_REFLECTION_BODY() "
    let t : Text := before ++ writtenMap.marked " " "Meta=(1)" " UPROPERTY() int X;"
    ∃ header : Header,
      (read t = .ok (some header) ∧ header.head.isSome ∧ writtenMap.text.length ≤ 200) ∧
      ∃ front back,
        header.properties = front ++ ⟨"Meta=(1)", "TMap<A , B>*", "Lights"⟩ :: back := by
  intro before t
  let header : Header := ⟨some ⟨.class_, "L", "P", []⟩,
    [⟨"Meta=(1)", "TMap<A , B>*", "Lights"⟩, ⟨[], "int", "X"⟩], [], []⟩
  have hread : read t = .ok (some header) := by decide +kernel
  have hreach : writtenMap.text.length ≤ 200 := by decide +kernel
  obtain ⟨earlier, later, site, -, -, -, -, hproperties⟩ :=
    read_recovers_property writtenMap before " " "Meta=(1)" " UPROPERTY() int X;" hread rfl
      (by decide +kernel) (List.all_eq_true.mp (by decide)) (by decide +kernel) hreach
      (by decide +kernel)
      (by decide +kernel)
  have htype : TypeName.normalize writtenMap.type = "TMap<A , B>*" := by decide +kernel
  have hname : writtenMap.name = "Lights" := rfl
  rw [htype, hname] at hproperties
  refine ⟨header, ⟨hread, rfl, hreach⟩, ?_⟩
  exact ⟨earlier.filterMap declaredAt, later.filterMap declaredAt, hproperties⟩

end Header

end Registrar
