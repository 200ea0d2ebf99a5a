import Registrar.Proofs.Classification
import Registrar.Proofs.ParameterLists
import Registrar.Proofs.SourceNames

/-!
# Pointers and the table of macros

The table of macros is asked about pointers only. A type without a star is never looked up in it, and
neither are the arguments of such a type, since they are parts of it. So two tables classify the
property alike, and two readings of one header differ in pointers only.

A pointer is resolved in two places: as the type of a property, and as the type of an element in a
container, after white space around it is trimmed and the value types are ruled out. Both come to the
same rule (`PointerRule`). White space at the ends is no part of a resource's name, and the words that
name a macro's kind hold none.
-/

namespace Registrar.Text

variable {needle t : Text}

/-! ## Needles without white space -/

theorem infix_of_blanks_append {blanks : Text} (hblanks : ∀ c ∈ blanks, isBlank c = true)
    (hsolid : ∀ c ∈ needle, isBlank c = false) (h : needle <:+: blanks ++ t) : needle <:+: t := by
  induction blanks with
  | nil => exact h
  | cons b blanks ih =>
      obtain ⟨hb, hrest⟩ := List.forall_mem_cons.mp hblanks
      rcases List.infix_cons_iff.mp h with hfront | hfurther
      · rcases List.prefix_cons_iff.mp hfront with rfl | ⟨rest, rfl, -⟩
        · exact List.nil_infix
        · rw [hsolid b List.mem_cons_self] at hb
          cases hb
      · exact ih hrest hfurther

/-- A needle without white space is found in a text when it is found in what trimming leaves. -/
theorem occursIn_trim (hsolid : ∀ c ∈ needle, isBlank c = false) (t : Text) :
    needle.occursIn t.trim = needle.occursIn t := by
  obtain ⟨front, back, heq, hfront, hback⟩ := exists_eq_trim t
  rw [Bool.eq_iff_iff, occursIn_iff, occursIn_iff]
  constructor
  · intro h
    rw [heq]
    exact h.trans ⟨front, back, List.append_assoc ..⟩
  · intro h
    rw [heq] at h
    have hinner := List.reverse_infix.mpr (infix_of_blanks_append hfront hsolid h)
    rw [List.reverse_append] at hinner
    apply List.reverse_infix.mp
    exact infix_of_blanks_append (fun c hc => hback c (List.mem_reverse.mp hc))
      (fun c hc => hsolid c (List.mem_reverse.mp hc)) hinner

/-! ## Small letters -/

/-- Small letters are white space where capitals are: nowhere. -/
theorem isBlank_toLower (c : Char) : isBlank c.toLower = isBlank c := by
  by_cases h : c.val ≥ 'A'.val ∧ c.val ≤ 'Z'.val
  · have hcapital : c.toNat ∈ List.range' 65 26 := by
      rw [List.mem_range'_1]
      exact ⟨h.1, Nat.lt_succ_of_le h.2⟩
    have htable : ∀ n ∈ List.range' 65 26,
        isBlank (Char.ofNat n).toLower = isBlank (Char.ofNat n) := by decide +kernel
    simpa using htable c.toNat hcapital
  · have hsame : c.toLower = c := dif_neg h
    rw [hsame]

theorem lower_trim (t : Text) : t.trim.lower = t.lower.trim := by
  have hclass : isBlank ∘ Char.toLower = isBlank := funext isBlank_toLower
  have hdrop : ∀ s : Text, (s.dropWhile isBlank).map Char.toLower =
      (s.map Char.toLower).dropWhile isBlank := by
    intro s
    rw [List.dropWhile_map, hclass]
  rw [trim, trimEnd, trimStart, lower, List.map_reverse, hdrop, List.map_reverse, hdrop]
  rfl

theorem isBlank_eq_false_of_mem_lower {c : Char} (hword : ∀ d ∈ t, isWord d = true)
    (hc : c ∈ t.lower) : isBlank c = false := by
  obtain ⟨d, hd, rfl⟩ := List.mem_map.mp hc
  rw [isBlank_toLower]
  exact isBlank_eq_false_of_isWord (hword d hd)

/-- White space at the ends stays at the ends, whatever is left out in between. -/
theorem trim_filter_trim (keep : Char → Bool) (t : Text) :
    trim (t.trim.filter keep) = trim (t.filter keep) := by
  obtain ⟨front, back, heq, hfront, hback⟩ := exists_eq_trim t
  have hfiltered : ∀ {blanks : Text}, (∀ c ∈ blanks, isBlank c = true) →
      ∀ c ∈ blanks.filter keep, isBlank c = true :=
    fun hblanks c hc => hblanks c (List.mem_filter.mp hc).1
  rw [heq, List.filter_append, List.filter_append, trim_blanks_append (hfiltered hfront),
    trim_append_space (hfiltered hback), ← heq]

end Registrar.Text

namespace Registrar

/-! ## White space around a pointer -/

namespace MacroEntry

theorem isWord_of_mem_patterns {e : MacroEntry} (h : ∀ c ∈ e.kind, Text.isWord c = true)
    {pattern : Text} (hpattern : pattern ∈ e.patterns) : ∀ c ∈ pattern, Text.isWord c = true := by
  have hbase : ∀ c ∈ ("Base" : Text), Text.isWord c = true := List.all_eq_true.mp (by decide)
  have hclass : ∀ c ∈ 'U' :: e.kind, Text.isWord c = true := List.forall_mem_cons.mpr ⟨by decide, h⟩
  have hview : ∀ pattern ∈ ["ShaderResourceView".toList, "SRV".toList],
      pattern.all Text.isWord = true := by decide
  rw [patterns, patternsOf] at hpattern
  split at hpattern
  · cases hpattern
  · split at hpattern
    · exact List.all_eq_true.mp (hview pattern hpattern)
    · simp only [List.mem_cons, List.not_mem_nil, or_false] at hpattern
      rcases hpattern with rfl | rfl | rfl | rfl
      · exact h
      · exact hclass
      · exact List.forall_mem_append.mpr ⟨hclass, hbase⟩
      · exact List.forall_mem_append.mpr ⟨h, hbase⟩

/-- White space around a type does not change which kinds it names. -/
theorem namedIn_trim {e : MacroEntry} (h : ∀ c ∈ e.kind, Text.isWord c = true) (type : Text) :
    e.namedIn type.trim = e.namedIn type := by
  rw [namedIn, namedIn, Text.lower_trim, Bool.eq_iff_iff, List.any_eq_true, List.any_eq_true]
  have hsame : ∀ pattern ∈ e.patterns,
      pattern.lower.occursIn type.lower.trim = pattern.lower.occursIn type.lower := by
    intro pattern hpattern
    exact Text.occursIn_trim
      (fun c => Text.isBlank_eq_false_of_mem_lower (isWord_of_mem_patterns h hpattern)) _
  exact exists_congr fun pattern => and_congr_right fun hpattern => by rw [hsame pattern hpattern]

end MacroEntry

namespace MacroTable

/-- The kinds of a table are words. -/
def KindsWorded (table : MacroTable) : Prop :=
  ∀ e ∈ table.entries, ∀ c ∈ e.kind, Text.isWord c = true

theorem kindsWorded_parse (macros : Text) : KindsWorded (parse macros) :=
  fun _ he => (worded_of_mem_parse he).kind_word

theorem forType?_trim {table : MacroTable} (h : KindsWorded table) (type : Text) :
    table.forType? type.trim = table.forType? type := by
  by_cases hpointer : '*' ∈ type
  · rw [forType?, forType?, if_pos hpointer, if_pos (Text.mem_trim hpointer (by decide))]
    rw [← List.head?_filter, ← List.head?_filter,
      List.filter_congr fun e he => MacroEntry.namedIn_trim (h e he) type]
  · rw [forType?, forType?, if_neg hpointer, if_neg (mt Text.mem_of_mem_trim hpointer)]

end MacroTable

/-- White space around a type is no part of the name that it points to. -/
theorem Resource.pointee_trim (type : Text) : pointee type.trim = pointee type := by
  rw [pointee, pointee, Text.lower_trim, Text.trim_filter_trim]

theorem Pointee.ofType_trim {table : MacroTable} (h : table.KindsWorded) (type : Text) :
    ofType table type.trim = ofType table type := by
  rw [ofType, ofType, MacroTable.forType?_trim h, Resource.ofPointer?, Resource.pointee_trim,
    ← Resource.ofPointer?]

namespace ElementKind

/-- A pointer is no value type, so an element goes by what it points to. -/
theorem ofType_of_pointer {table : MacroTable} (htable : table.KindsWorded) {type : Text}
    (h : '*' ∈ type) : ofType table type = (Pointee.ofType table type).kind := by
  have hstar : '*' ∈ type.trim := Text.mem_trim h (by decide)
  have hvalue : (values.find? fun entry => entry.1 = type.trim.lower) = none := by
    have hnames : ∀ entry ∈ values, '*' ∉ entry.1 := by decide
    rw [List.find?_eq_none]
    intro entry hentry hname
    have hlower : '*' ∈ type.trim.lower := List.mem_map.mpr ⟨'*', hstar, by decide⟩
    exact hnames entry hentry (of_decide_eq_true hname ▸ hlower)
  rw [ofType]
  simp only [hvalue, if_pos hstar, Pointee.ofType_trim htable]

end ElementKind

/-! ## One rule for a pointer alone and in a container -/

/-- The form of a pointer by itself and the tag of one in a container, by the first rule that the type
meets: it points to a resource, or it names the kind of a macro of the table, or neither. -/
inductive PointerRule (table : MacroTable) (type : Text) : Registration → Text → Prop
  | resource (name : Text) (r : Resource) (hrow : (name, r) ∈ Resource.byName)
      (hname : name = Resource.pointee type) :
      PointerRule table type r.registration r.kind.tag
  | entry (before after : List MacroEntry) (e : MacroEntry)
      (hresource : ∀ row ∈ Resource.byName, row.1 ≠ Resource.pointee type)
      (hentries : table.entries = before ++ e :: after)
      (hbefore : ∀ earlier ∈ before, earlier.namedIn type = false)
      (hnamed : e.namedIn type = true) :
      PointerRule table type (.ofMacroName e.name) ("EPropertyType::" ++ e.kind)
  | object (hresource : ∀ row ∈ Resource.byName, row.1 ≠ Resource.pointee type)
      (hentries : ∀ e ∈ table.entries, e.namedIn type = false) :
      PointerRule table type .objectPtr "EPropertyType::ObjectPtr"

theorem pointerRule_ofType (table : MacroTable) {type : Text} (h : '*' ∈ type) :
    PointerRule table type (Pointee.ofType table type).registration
      (Pointee.ofType table type).kind.tag := by
  rw [Pointee.ofType]
  cases hresource : Resource.ofPointer? type with
  | some r =>
      obtain ⟨⟨name, _⟩, hfind, rfl⟩ := Option.map_eq_some_iff.mp hresource
      have hname : name = Resource.pointee type := by simpa using List.find?_some hfind
      exact .resource name _ (List.mem_of_find?_eq_some hfind) hname
  | none =>
      have hrows : ∀ row ∈ Resource.byName, row.1 ≠ Resource.pointee type := by
        have hfind := List.find?_eq_none.mp (Option.map_eq_none_iff.mp hresource)
        exact fun row hrow heq => hfind row hrow (decide_eq_true heq)
      cases hentry : table.forType? type with
      | some e =>
          rw [MacroTable.forType?, if_pos h, List.find?_eq_some_iff_append] at hentry
          obtain ⟨hnamed, before, after, hentries, hbefore⟩ := hentry
          exact .entry before after e hrows hentries
            (fun earlier hearlier => by simpa using hbefore earlier hearlier) hnamed
      | none =>
          rw [MacroTable.forType?, if_pos h, List.find?_eq_none] at hentry
          exact .object hrows fun e he => by simpa using hentry e he

/-- **Pointers are resolved alike alone and in containers.** With the table of any header, a pointer
that no template and no word of its type has a rule for is registered, and tagged as the element of a
container, by one and the same rule: as the same resource, by the same macro of the table, or as an
object. -/
theorem pointers_resolved_alike (macros : Text) (p : Property) (hpointer : '*' ∈ p.declaredType)
    (hunmarked : Property.Unmarked p.declaredType) :
    PointerRule (.parse macros) p.declaredType (p.classify (.parse macros)).registration
      (ElementKind.ofType (.parse macros) p.declaredType).tag := by
  have hform : (p.classify (.parse macros)).registration =
      (Pointee.ofType (.parse macros) p.declaredType).registration :=
    congrArg Prod.fst (Property.resolve_of_pointer hunmarked hpointer)
  rw [hform, ElementKind.ofType_of_pointer (MacroTable.kindsWorded_parse macros) hpointer]
  exact pointerRule_ofType _ hpointer

/-- A header that defines one macro, for widgets. -/
def widgetMacros : Text :=
  "#define ADD_PROPERTY_WIDGET(T, N) \x7b Prop.Type = EPropertyType::Widget; \x7d"

theorem parse_widgetMacros :
    MacroTable.parse widgetMacros = ⟨[⟨"ADD_PROPERTY_WIDGET", "Widget"⟩]⟩ := by
  decide +kernel

/-- A property whose type has white space around it. -/
def spacedHud : Property :=
  .bare "Hud" " UWidgetBase *\t"

theorem pointers_resolved_alike_spaced :
    '*' ∈ spacedHud.declaredType ∧ Property.Unmarked spacedHud.declaredType ∧
      PointerRule (.parse widgetMacros) spacedHud.declaredType (.registered "ADD_PROPERTY_WIDGET")
        "EPropertyType::Widget" := by
  have hpointer : '*' ∈ spacedHud.declaredType := by decide
  have hunmarked : Property.Unmarked spacedHud.declaredType := ⟨by decide, by decide, by decide⟩
  have hform : (spacedHud.classify (.parse widgetMacros)).registration =
      .registered "ADD_PROPERTY_WIDGET" := by
    rw [parse_widgetMacros]
    decide +kernel
  have htag : (ElementKind.ofType (.parse widgetMacros) spacedHud.declaredType).tag =
      "EPropertyType::Widget" := by
    rw [parse_widgetMacros]
    decide +kernel
  have hrule := pointers_resolved_alike widgetMacros spacedHud hpointer hunmarked
  rw [hform, htag] at hrule
  exact ⟨hpointer, hunmarked, hrule⟩

/-! ## The table matters for pointers only -/

/-- The kind of an element without a star is the same for all tables. -/
theorem ElementKind.ofType_eq_of_notMem {type : Text} (h : '*' ∉ type) (a b : MacroTable) :
    ofType a type = ofType b type := by
  have htrim : '*' ∉ type.trim := mt Text.mem_of_mem_trim h
  simp only [ofType, if_neg htrim]

namespace Property

/-- Without a star in the type, the rule that applies does not depend on the table. -/
theorem Rule.of_table {a : MacroTable} {p : Property} {form : Registration} {extra : Dict Text}
    (h : Rule a p form extra) (hstar : '*' ∉ p.declaredType) (b : MacroTable) :
    Rule b p form extra := by
  have hkind : ∀ arg ∈ TypeName.templateArgs p.declaredType,
      ElementKind.ofType a arg = ElementKind.ofType b arg := fun arg harg =>
    ElementKind.ofType_eq_of_notMem (mt (TypeName.mem_of_mem_templateArgs harg) hstar) a b
  cases h with
  | subclassOf base more htemplate hargs => exact .subclassOf base more htemplate hargs
  | subclassOfNone htemplate hargs => exact .subclassOfNone htemplate hargs
  | map key value more htemplate hargs =>
      rw [hkind key (by simp [hargs]), hkind value (by simp [hargs])]
      exact .map key value more htemplate hargs
  | mapShort htemplate hargs => exact .mapShort htemplate hargs
  | structArray element more htemplate hargs hstruct =>
      rw [hkind element (by simp [hargs])]
      exact .structArray element more htemplate hargs hstruct
  | array element more htemplate hargs hstruct =>
      rw [hkind element (by simp [hargs])]
      exact .array element more htemplate hargs hstruct
  | arrayOfNone htemplate hargs => exact .arrayOfNone htemplate hargs
  | curve htemplate hcurve => exact .curve htemplate hcurve
  | view htemplate hcurve hview => exact .view htemplate hcurve hview
  | resource r hunmarked hpointer hresource => exact absurd hpointer hstar
  | learned e hunmarked hpointer hresource hentry => exact absurd hpointer hstar
  | object hunmarked hpointer hresource hentry => exact absurd hpointer hstar
  | scriptFile hunmarked hpointer hfile => exact .scriptFile hunmarked hpointer hfile
  | scriptName hunmarked hpointer hfile hname => exact .scriptName hunmarked hpointer hfile hname
  | ranged hunmarked hpointer hfile hname hrange =>
      exact .ranged hunmarked hpointer hfile hname hrange
  | scalar hunmarked hpointer hfile hname hrange =>
      exact .scalar hunmarked hpointer hfile hname hrange

theorem classify_eq_of_notMem {p : Property} (h : '*' ∉ p.declaredType) (a b : MacroTable) :
    p.classify a = p.classify b :=
  ((rule_classify b p).of_table h a).classify_eq

end Property

namespace Entity

/-- The entity without the properties whose types have a star. -/
def withoutPointers (e : Entity) : Entity :=
  { e with properties := e.properties.filter fun p => !p.declaredType.contains '*' }

theorem objectName?_eq (a b : MacroTable) (e : Entity) : objectName? a e = objectName? b e := by
  have hplain : '*' ∉ ("FName" : Text) := by decide
  have hname : ∀ category tooltip : Text,
      Property.classify a { Property.bare "ObjectName" "FName" with
        category := category, isEditable := true, tooltip := tooltip } =
      Property.classify b { Property.bare "ObjectName" "FName" with
        category := category, isEditable := true, tooltip := tooltip } :=
    fun _ _ => Property.classify_eq_of_notMem hplain a b
  simp only [objectName?, hname]

theorem filter_classified (a b : MacroTable) (e : Entity) (properties : List Property) :
    ((objectName? a e).toList ++ properties.map (Property.classify a)).filter
        (fun p => !p.declaredType.contains '*') =
      ((objectName? b e).toList ++ properties.map (Property.classify b)).filter
        fun p => !p.declaredType.contains '*' := by
  rw [objectName?_eq a b, List.filter_append, List.filter_append, List.filter_map, List.filter_map]
  refine congrArg _ (List.map_congr_left fun p hp => ?_)
  have hstar : '*' ∉ p.declaredType :=
    show '*' ∉ (p.classify a).declaredType by simpa using (List.mem_filter.mp hp).2
  exact Property.classify_eq_of_notMem hstar a b

/-- Two readings of a header fail alike, or differ in pointers only. -/
theorem ofText_withoutPointers (a b : MacroTable) (fileStem text : Text) :
    (ofText a fileStem text).map (Option.map withoutPointers) =
      (ofText b fileStem text).map (Option.map withoutPointers) := by
  -- the branches that no table enters are settled where they end
  simp only [ofText, ofHead, bind, Except.bind]
  cases Header.read text with
  | error e => rfl
  | ok found =>
      cases found with
      | none => rfl
      | some header =>
          dsimp only
          cases header.head with
          | none => rfl
          | some head =>
              dsimp only
              cases header.properties.mapM Property.ofDeclaration with
              | error e => rfl
              | ok properties =>
                  exact congrArg (fun kept => Except.ok (some { ofAttributes head.name head.parent
                    head.kind (Attributes.parse head.arguments) with
                      properties := kept
                      functions := header.functions.map Function.ofDeclaration
                      enums := header.enums })) (filter_classified a b _ properties)

end Entity

/-- **The table of macros matters for pointers only.** Two tables classify a property without a star in
its type alike. So two readings of a header with different tables, or with one and none, fail alike or
come to the same entity but for the properties with a star. -/
theorem table_matters_for_pointers_only (a b : MacroTable) :
    (∀ p : Property, '*' ∉ p.declaredType → p.classify a = p.classify b) ∧
      ∀ fileStem text,
        (Entity.ofText a fileStem text).map (Option.map Entity.withoutPointers) =
          (Entity.ofText b fileStem text).map (Option.map Entity.withoutPointers) :=
  ⟨fun _ h => Property.classify_eq_of_notMem h a b, Entity.ofText_withoutPointers a b⟩

/-- A property of a type without a star, which names widgets. -/
def widgetLists : Property :=
  .bare "Huds" "TMap<FName, TArray<UWidget>>"

theorem table_matters_for_pointers_only_nested :
    '*' ∉ widgetLists.declaredType ∧
      widgetLists.classify (.parse widgetMacros) = widgetLists.classify .empty ∧
      spacedHud.classify (.parse widgetMacros) ≠ spacedHud.classify .empty := by
  have hplain : '*' ∉ widgetLists.declaredType := by decide
  refine ⟨hplain, (table_matters_for_pointers_only (.parse widgetMacros) .empty).1 _ hplain, ?_⟩
  rw [parse_widgetMacros]
  decide +kernel

end Registrar
