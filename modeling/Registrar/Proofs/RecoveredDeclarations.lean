import Registrar.Proofs.FunctionRecovery
import Registrar.Proofs.NormalTypes
import Registrar.Proofs.PropertyRecovery

/-!
# What is recovered from a header can be used

Whatever text follows a marker, a declaration that is recovered behind it has a name, and its type
is in normal form. A function also has a return type: one that has none is passed over. A property
may have none. `Untyped` says after what text that happens: white space, a word and a terminator.
The white space in front of the word then stands in for the type, whose normal form is empty.

The main statement collects this for all declarations of a header, with the exact condition for a
property without a type.
-/

namespace Registrar.Text

/-- A text is its trimmed front and white space. -/
theorem exists_blanks_trimEnd (t : Text) :
    ∃ blanks, t = t.trimEnd ++ blanks ∧ ∀ c ∈ blanks, isBlank c = true := by
  refine ⟨(t.reverse.takeWhile isBlank).reverse, ?_, fun c hc => ?_⟩
  · rw [trimEnd, ← List.reverse_append, List.takeWhile_append_dropWhile, List.reverse_reverse]
  · exact List.all_eq_true.mp List.all_takeWhile c (List.mem_reverse.mp hc)

/-- The two halves at the longest tail of a class make up the text. -/
theorem eq_of_splitTail {p : Char → Bool} {t front tail : Text}
    (h : t.splitTail p = (front, tail)) : t = front ++ tail ∧ ∀ c ∈ tail, p c = true := by
  obtain ⟨rfl, rfl⟩ := Prod.mk.inj h
  refine ⟨?_, fun c hc => ?_⟩
  · rw [← List.reverse_append, List.takeWhile_append_dropWhile, List.reverse_reverse]
  · exact List.all_eq_true.mp List.all_takeWhile c (List.mem_reverse.mp hc)

end Registrar.Text

namespace Registrar

/-! ## Properties -/

/-- What ends a declaration starts with a terminator. -/
theorem Terminator.exists_of_terminates {t : Text}
    (h : PropertyDeclaration.terminates t = true) :
    ∃ terminator rest, t = terminator ++ rest ∧ Terminator terminator := by
  unfold PropertyDeclaration.terminates at h
  split at h
  · exact ⟨_, _, rfl, .semicolon⟩
  · exact ⟨_, _, rfl, .equals⟩
  · next r =>
    -- the initialiser runs to the first closing brace
    obtain ⟨inner, rest, rfl, hinner⟩ := List.eq_append_cons_of_mem (of_decide_eq_true h)
    exact ⟨'{' :: inner ++ ['}'], rest, by simp, .braces inner hinner⟩
  · cases h

namespace PropertyDeclaration

/-- A declaration that names no type: white space, a word and a terminator. -/
inductive Untyped : (name t : Text) → Prop
  | intro {gap name trail terminator : Text} (gap_ne_nil : gap ≠ [])
      (gap_blank : ∀ c ∈ gap, Text.isBlank c = true) (name_ne_nil : name ≠ [])
      (name_word : ∀ c ∈ name, Text.isWord c = true)
      (trail_blank : ∀ c ∈ trail, Text.isBlank c = true) (ends : Terminator terminator)
      (rest : Text) : Untyped name (gap ++ name ++ trail ++ (terminator ++ rest))

variable {t type name : Text}

/-- What is read as a type and a name has both in front of a terminator, with the type in normal
form. -/
theorem parts_of_read? (h : read? t = some (type, name)) :
    ∃ front trail terminator rest, t = front ++ name ++ trail ++ (terminator ++ rest) ∧
      type = TypeName.normalize front ∧ front ≠ [] ∧ name ≠ [] ∧
      (∀ c ∈ name, Text.isWord c = true) ∧ (∀ c ∈ trail, Text.isBlank c = true) ∧
      Terminator terminator := by
  unfold read? at h
  split at h
  next front last hsplit =>
  split at h
  · next hparts =>
    obtain ⟨hfront, hlast, hends⟩ := hparts
    cases h
    obtain ⟨trail, htrim, htrail⟩ := Text.exists_blanks_trimEnd (t.takeWhile isTypeChar)
    obtain ⟨hrow, hword⟩ := Text.eq_of_splitTail hsplit
    obtain ⟨terminator, rest, hdrop, hterm⟩ := Terminator.exists_of_terminates hends
    refine ⟨front, trail, terminator, rest, ?_, rfl, hfront, hlast, hword, htrail, hterm⟩
    rw [← hrow, ← htrim, ← hdrop, List.takeWhile_append_dropWhile]
  · cases h

/-- **No type is read** exactly where none is written. -/
theorem read?_untyped_iff : read? t = some ([], name) ↔ Untyped name t := by
  constructor
  · intro h
    obtain ⟨gap, trail, terminator, rest, rfl, hnil, hne, hname, hword, htrail, hterm⟩ :=
      parts_of_read? h
    exact .intro hne (TypeName.normalize_eq_nil_iff.mp hnil.symm) hname hword htrail hterm rest
  · rintro ⟨hne, hgap, hname, hword, htrail, hterm, rest⟩
    next gap trail terminator =>
    have hchars : ∀ c ∈ [] ++ gap ++ name ++ trail, isTypeChar c = true := by
      intro c hc
      simp only [List.nil_append, List.mem_append] at hc
      obtain (h | h) | h := hc
      · exact isTypeChar_of_isBlank (hgap c h)
      · exact isTypeChar_of_isWord (hword c h)
      · exact isTypeChar_of_isBlank (htrail c h)
    have hread := read?_declarator hchars hne hgap hname hword (Or.inl hne) htrail hterm rest
    rwa [List.nil_append, TypeName.normalize_eq_nil_iff.mpr hgap] at hread

end PropertyDeclaration

/-! ## Functions -/

theorem FunctionDeclaration.name_ne_nil_of_takeHead? {t before name rest : Text}
    (h : takeHead? t = some (before, name, rest)) : name ≠ [] := by
  obtain ⟨after, -, h⟩ := Option.bind_eq_some_iff.mp h
  dsimp only at h
  split at h
  · cases h
  · next hne =>
    cases h
    exact hne

namespace Header

/-- A function that is recovered has a name and a return type. -/
theorem usable_of_readFunction {site : Site} {arguments rest : Text} {f : FunctionDeclaration}
    (h : readFunction site arguments rest = .ok (some f)) :
    f.name ≠ [] ∧ f.returnType ≠ [] ∧ TypeName.normalize f.returnType = f.returnType := by
  unfold readFunction at h
  split at h
  · cases h
  · next before name after hhead =>
    dsimp only at h
    split at h
    · cases h
    · next htype =>
      split at h
      · cases h
      · obtain ⟨isConst, -, rfl⟩ := Option.map_eq_some_iff.mp (Except.ok.inj h)
        exact ⟨FunctionDeclaration.name_ne_nil_of_takeHead? hhead, htype,
          TypeName.normalize_normalize _⟩

/-- A header without a class head has no properties and no functions. -/
theorem members_eq_nil_of_no_head {t : Text} {header : Header}
    (h : read t = .ok (some header)) (hhead : header.head = none) :
    header.properties = [] ∧ header.functions = [] := by
  rw [read, readStripped] at h
  split at h
  · cases h
  · obtain ⟨enums, -, h⟩ := bind_eq_ok_iff.mp h
    split at h
    · cases h
      exact ⟨rfl, rfl⟩
    · obtain ⟨found, -, h⟩ := bind_eq_ok_iff.mp h
      cases found with
      | none => cases h
      | some found =>
          obtain ⟨properties, -, h⟩ := bind_eq_ok_iff.mp h
          obtain ⟨functions, -, h⟩ := bind_eq_ok_iff.mp h
          cases h
          cases hhead

variable {t : Text} {header : Header}

/-- The declaration at a site of the property marker is read from the window behind its
arguments. -/
theorem declaredAt_eq_some_iff {site : Site} {p : PropertyDeclaration} :
    declaredAt site = some p ↔ ∃ rest, site.rest.parenthesised? = some (p.arguments, rest) ∧
      PropertyDeclaration.read? (rest.take PropertyDeclaration.window) =
        some (p.type, p.name) := by
  constructor
  · intro h
    obtain ⟨⟨arguments, rest⟩, hrest, hproperty⟩ := Option.bind_eq_some_iff.mp h
    obtain ⟨⟨type, name⟩, hread, rfl⟩ := Option.map_eq_some_iff.mp hproperty
    exact ⟨rest, hrest, hread⟩
  · rintro ⟨rest, hrest, hread⟩
    rw [declaredAt, hrest, Option.bind_some]
    show readProperty p.arguments rest = some p
    rw [readProperty, hread, Option.map_some]

/-- The properties of a header are those declared at the sites of the property marker, if it has a
class head. -/
theorem mem_properties_iff (h : read t = .ok (some header)) {p : PropertyDeclaration} :
    p ∈ header.properties ↔ header.head.isSome = true ∧
      ∃ site ∈ Marker.property.sites t.stripComments, declaredAt site = some p := by
  cases hhead : header.head with
  | none => simp [(members_eq_nil_of_no_head h hhead).1]
  | some head => simp [properties_eq h hhead]

theorem usable_of_mem_functions (h : read t = .ok (some header)) {f : FunctionDeclaration}
    (hf : f ∈ header.functions) :
    f.name ≠ [] ∧ f.returnType ≠ [] ∧ TypeName.normalize f.returnType = f.returnType := by
  cases hhead : header.head with
  | none =>
      rw [(members_eq_nil_of_no_head h hhead).2] at hf
      cases hf
  | some head =>
      rw [functions_eq h hhead] at hf
      obtain ⟨site, -, hfound⟩ := List.mem_filterMap.mp hf
      have hread : contribution .function readFunction site = .ok (some f) := by
        rw [functionAt] at hfound
        cases hread : contribution .function readFunction site with
        | error e =>
            rw [hread] at hfound
            cases hfound
        | ok found =>
            rw [hread] at hfound
            exact congrArg _ hfound
      obtain ⟨⟨arguments, rest⟩, -, hfunction⟩ := bind_eq_ok_iff.mp hread
      exact usable_of_readFunction hfunction

/-- **Every recovered declaration can be used, but for properties that name no type.** In a header
that is read, every property has a name, every function has a name and a return type, and all types
are in normal form. A property has no type exactly when it is declared as `Untyped` within reach of
its marker. -/
theorem declarations_usable (h : read t = .ok (some header)) :
    (∀ p ∈ header.properties, p.name ≠ [] ∧ TypeName.normalize p.type = p.type) ∧
    (∀ f ∈ header.functions, f.name ≠ [] ∧ f.returnType ≠ [] ∧
      TypeName.normalize f.returnType = f.returnType) ∧
    ∀ arguments name, ⟨arguments, [], name⟩ ∈ header.properties ↔
      header.head.isSome = true ∧ ∃ site ∈ Marker.property.sites t.stripComments, ∃ rest,
        site.rest.parenthesised? = some (arguments, rest) ∧
        PropertyDeclaration.Untyped name (rest.take 200) := by
  refine ⟨fun p hp => ?_, fun f => usable_of_mem_functions h, fun arguments name => ?_⟩
  · obtain ⟨-, site, -, hp⟩ := (mem_properties_iff h).mp hp
    obtain ⟨rest, -, hread⟩ := declaredAt_eq_some_iff.mp hp
    obtain ⟨front, trail, terminator, after, -, htype, -, hname, -⟩ :=
      PropertyDeclaration.parts_of_read? hread
    exact ⟨hname, by rw [htype, TypeName.normalize_normalize]⟩
  · simp only [mem_properties_iff h, declaredAt_eq_some_iff, PropertyDeclaration.read?_untyped_iff]
    exact Iff.rfl

/-- A header with a property that names no type, one that does, and two functions, of which the
second has specifiers only before its name. -/
theorem declarations_usable_mixed :
    let t : Text := "UCLASS() class L : public P \x7b GENERATED_REFLECTION_BODY() " ++
      "UPROPERTY(A) X; UPROPERTY() int  * Y; UFUNCTION() static  T & F(); UFUNCTION() virtual G();"
    let header : Header := ⟨some ⟨.class_, "L", "P", []⟩,
      [⟨"A", [], "X"⟩, ⟨[], "int*", "Y"⟩], [⟨[], "T&", "F", [], false⟩], []⟩
    read t = .ok (some header) ∧
    (∀ p ∈ header.properties, p.name ≠ [] ∧ TypeName.normalize p.type = p.type) ∧
    (∀ f ∈ header.functions, f.name ≠ [] ∧ f.returnType ≠ [] ∧
      TypeName.normalize f.returnType = f.returnType) ∧
    ∃ site ∈ Marker.property.sites t.stripComments, ∃ rest,
      site.rest.parenthesised? = some ("A".toList, rest) ∧
      PropertyDeclaration.Untyped "X" (rest.take 200) := by
  intro t header
  have hread : read t = .ok (some header) := by decide +kernel
  obtain ⟨hproperties, hfunctions, huntyped⟩ := declarations_usable hread
  exact ⟨hread, hproperties, hfunctions, ((huntyped "A" "X").mp List.mem_cons_self).2⟩

/-- White space alone in front of a property's name is recovered as its type. -/
theorem untyped_property_recovered :
    ∃ header p, read
      "UCLASS() class L : public P \x7b GENERATED_REFLECTION_BODY() UPROPERTY() X; \x7d;" =
        .ok (some header) ∧
      p ∈ header.properties ∧ p.type = [] :=
  ⟨⟨some ⟨.class_, "L", "P", []⟩, [⟨[], [], "X"⟩], [], []⟩, ⟨[], [], "X"⟩, by decide +kernel,
    List.mem_cons_self, rfl⟩

end Header

end Registrar
