import Registrar.Property.Classify

/-!
# The rules of classification

`Property.Rule` says once what classification can do: one constructor for each rule, with all that
must hold for the rule to be reached, the form it gives and the attributes it leaves
(`Property.rule_resolve`). What is known of a classified property follows by going through the
rules. No two rules apply to one property (`Property.Rule.resolve_eq`).

The main statement is about the operands of registration calls. A call for a map, an array, a range
or a script takes more than the declared type, and classification by a built-in rule always leaves
what it takes. A macro of the engine's table can bear the name of such a call too; a pointer that
names its kind is then given the form and none of the operands.
-/

namespace Registrar

/-! ## Names of macros -/

namespace Registration

/-- A form is called by the name of the macro that it was made from. -/
theorem macroName_ofMacroName (name : Text) : (ofMacroName name).macroName = name := by
  have hbuiltin : ∀ entry ∈ builtin, entry.1.macroName = entry.2 := by decide
  rw [ofMacroName]
  cases hfind : builtin.find? fun entry => entry.2 = name with
  | none => rfl
  | some entry =>
      have hname : entry.2 = name := by simpa using List.find?_some hfind
      exact (hbuiltin entry (List.mem_of_find?_eq_some hfind)).trans hname

end Registration

namespace MacroEntry

/-- The kinds for containers and for script files are named by no type. -/
theorem kind_notMem_of_namedIn {e : MacroEntry} {type : Text} (h : e.namedIn type = true) :
    e.kind ∉ ["Array".toList, "ScriptFile".toList] := by
  intro hkind
  have hnone : e.patterns = [] := by
    rw [patterns, patternsOf, if_pos (by simpa using hkind)]
  rw [namedIn, hnone] at h
  cases h

end MacroEntry

/-- The outermost template of a type has a name, given in small letters, in any case. -/
def TypeName.IsOutermost (type lowered : Text) : Prop :=
  ∃ head, templateHead? type = some head ∧ head.lower = lowered

namespace Template

/-- The name of a template in small letters. -/
def lowered : Template → Text
  | subclassOf => "tsubclassof"
  | map => "tmap"
  | array => "tarray"

/-- A template that has a rule is the outermost one of the type. -/
theorem isOutermost_of_ofType? {type : Text} {template : Template}
    (h : ofType? type = some template) : TypeName.IsOutermost type template.lowered := by
  unfold ofType? at h
  split at h
  · cases h
  · next head hhead =>
    refine ⟨head, hhead, ?_⟩
    split at h
    · cases h
      assumption
    · split at h
      · cases h
        assumption
      · split at h
        · cases h
          assumption
        · cases h

/-- The outermost template of a type is found, when it has a rule. -/
theorem ofType?_of_templateHead? {type head : Text} {template : Template}
    (hhead : TypeName.templateHead? type = some head) (h : head.lower = template.lowered) :
    ofType? type = some template := by
  have hmap : map.lowered ≠ subclassOf.lowered := by decide
  have harray : array.lowered ≠ subclassOf.lowered ∧ array.lowered ≠ map.lowered := by decide
  rw [ofType?, hhead]
  cases template with
  | subclassOf => exact if_pos h
  | map => exact (if_neg (h ▸ hmap)).trans (if_pos h)
  | array => exact (if_neg (h ▸ harray.1)).trans ((if_neg (h ▸ harray.2)).trans (if_pos h))

end Template

namespace Property

/-! ## The rules -/

/-- No template and no word of a type has a rule of its own. -/
structure Unmarked (type : Text) : Prop where
  template : Template.ofType? type = none
  curve : mentions ["ucurve", "fcurve"] type = false
  view : mentions ["srv", "shaderresourceview"] type = false

/-- The form that classification gives to a property, and the attributes that it leaves. -/
inductive Rule (table : MacroTable) (p : Property) : Registration → Dict Text → Prop
  | subclassOf (base : Text) (more : List Text)
      (htemplate : Template.ofType? p.declaredType = some .subclassOf)
      (hargs : TypeName.templateArgs p.declaredType = base :: more) :
      Rule table p .scalar (p.extra.insert baseClassKey base)
  | subclassOfNone (htemplate : Template.ofType? p.declaredType = some .subclassOf)
      (hargs : TypeName.templateArgs p.declaredType = []) :
      Rule table p .scalar p.extra
  | map (key value : Text) (more : List Text)
      (htemplate : Template.ofType? p.declaredType = some .map)
      (hargs : TypeName.templateArgs p.declaredType = key :: value :: more) :
      Rule table p .map
        ((p.extra.insert keyTypeKey (ElementKind.ofType table key).tag).insert valueTypeKey
          (ElementKind.ofType table value).tag)
  | mapShort (htemplate : Template.ofType? p.declaredType = some .map)
      (hargs : (TypeName.templateArgs p.declaredType).length < 2) :
      Rule table p .map p.extra
  | structArray (element : Text) (more : List Text)
      (htemplate : Template.ofType? p.declaredType = some .array)
      (hargs : TypeName.templateArgs p.declaredType = element :: more)
      (hstruct : isStructName element = true) :
      Rule table p .structArray
        ((p.extra.insert innerTypeKey (ElementKind.ofType table element).tag).insert structTypeKey
          element)
  | array (element : Text) (more : List Text)
      (htemplate : Template.ofType? p.declaredType = some .array)
      (hargs : TypeName.templateArgs p.declaredType = element :: more)
      (hstruct : isStructName element = false) :
      Rule table p .array (p.extra.insert innerTypeKey (ElementKind.ofType table element).tag)
  | arrayOfNone (htemplate : Template.ofType? p.declaredType = some .array)
      (hargs : TypeName.templateArgs p.declaredType = []) :
      Rule table p .array p.extra
  | curve (htemplate : Template.ofType? p.declaredType = none)
      (hcurve : mentions ["ucurve", "fcurve"] p.declaredType = true) :
      Rule table p .curve p.extra
  | view (htemplate : Template.ofType? p.declaredType = none)
      (hcurve : mentions ["ucurve", "fcurve"] p.declaredType = false)
      (hview : mentions ["srv", "shaderresourceview"] p.declaredType = true) :
      Rule table p .srv p.extra
  | resource (r : Resource) (hunmarked : Unmarked p.declaredType) (hpointer : '*' ∈ p.declaredType)
      (hresource : Resource.ofPointer? p.declaredType = some r) :
      Rule table p r.registration p.extra
  | learned (e : MacroEntry) (hunmarked : Unmarked p.declaredType)
      (hpointer : '*' ∈ p.declaredType) (hresource : Resource.ofPointer? p.declaredType = none)
      (hentry : table.forType? p.declaredType = some e) :
      Rule table p (.ofMacroName e.name) p.extra
  | object (hunmarked : Unmarked p.declaredType) (hpointer : '*' ∈ p.declaredType)
      (hresource : Resource.ofPointer? p.declaredType = none)
      (hentry : table.forType? p.declaredType = none) :
      Rule table p .objectPtr p.extra
  | scriptFile (hunmarked : Unmarked p.declaredType) (hpointer : '*' ∉ p.declaredType)
      (hfile : p.extra.contains scriptFileKey = true) :
      Rule table p .script p.extra
  | scriptName (hunmarked : Unmarked p.declaredType) (hpointer : '*' ∉ p.declaredType)
      (hfile : p.extra.contains scriptFileKey = false)
      (hname : p.declaredType.trim = "FString" ∧ mentions ["script", "lua"] p.name = true) :
      Rule table p .script (p.extra.insert scriptFileKey defaultScriptExtension)
  | ranged (hunmarked : Unmarked p.declaredType) (hpointer : '*' ∉ p.declaredType)
      (hfile : p.extra.contains scriptFileKey = false)
      (hname : ¬ (p.declaredType.trim = "FString" ∧ mentions ["script", "lua"] p.name = true))
      (hrange : p.range.isSome = true) :
      Rule table p .ranged p.extra
  | scalar (hunmarked : Unmarked p.declaredType) (hpointer : '*' ∉ p.declaredType)
      (hfile : p.extra.contains scriptFileKey = false)
      (hname : ¬ (p.declaredType.trim = "FString" ∧ mentions ["script", "lua"] p.name = true))
      (hrange : p.range.isSome = false) :
      Rule table p .scalar p.extra

variable (table : MacroTable) (p : Property)

/-- A pointer is a resource, or what the table names, or an object. -/
theorem rule_pointee (hunmarked : Unmarked p.declaredType) (hpointer : '*' ∈ p.declaredType) :
    Rule table p (Pointee.ofType table p.declaredType).registration p.extra := by
  rw [Pointee.ofType]
  cases hresource : Resource.ofPointer? p.declaredType with
  | some r => exact .resource r hunmarked hpointer hresource
  | none =>
      cases hentry : table.forType? p.declaredType with
      | some e => exact .learned e hunmarked hpointer hresource hentry
      | none => exact .object hunmarked hpointer hresource hentry

theorem rule_classifyPlain (htemplate : Template.ofType? p.declaredType = none) :
    Rule table p (classifyPlain table p).1 (classifyPlain table p).2 := by
  unfold classifyPlain
  by_cases hcurve : mentions ["ucurve", "fcurve"] p.declaredType = true
  · rw [if_pos hcurve]
    exact .curve htemplate hcurve
  · rw [if_neg hcurve]
    by_cases hview : mentions ["srv", "shaderresourceview"] p.declaredType = true
    · rw [if_pos hview]
      exact .view htemplate (by simpa using hcurve) hview
    · rw [if_neg hview]
      have hunmarked : Unmarked p.declaredType :=
        ⟨htemplate, by simpa using hcurve, by simpa using hview⟩
      by_cases hpointer : '*' ∈ p.declaredType
      · rw [if_pos hpointer]
        exact rule_pointee table p hunmarked hpointer
      · rw [if_neg hpointer]
        by_cases hfile : p.extra.contains scriptFileKey = true
        · rw [if_pos hfile]
          exact .scriptFile hunmarked hpointer hfile
        · rw [if_neg hfile]
          have hnofile : p.extra.contains scriptFileKey = false := by simpa using hfile
          by_cases hname : p.declaredType.trim = "FString" ∧
              mentions ["script", "lua"] p.name = true
          · rw [if_pos hname]
            exact .scriptName hunmarked hpointer hnofile hname
          · rw [if_neg hname]
            by_cases hrange : p.range.isSome = true
            · rw [if_pos hrange]
              exact .ranged hunmarked hpointer hnofile hname hrange
            · rw [if_neg hrange]
              exact .scalar hunmarked hpointer hnofile hname (by simpa using hrange)

/-- **Classification goes by the rules.** -/
theorem rule_resolve : Rule table p (resolve table p).1 (resolve table p).2 := by
  unfold resolve
  cases htemplate : Template.ofType? p.declaredType with
  | none => exact rule_classifyPlain table p htemplate
  | some template =>
      cases template with
      | subclassOf =>
          cases hargs : TypeName.templateArgs p.declaredType with
          | nil => exact .subclassOfNone htemplate hargs
          | cons base more => exact .subclassOf base more htemplate hargs
      | map =>
          rcases hargs : TypeName.templateArgs p.declaredType with _ | ⟨key, _ | ⟨value, more⟩⟩
          · exact .mapShort htemplate (by simp [hargs])
          · exact .mapShort htemplate (by simp [hargs])
          · exact .map key value more htemplate hargs
      | array =>
          cases hargs : TypeName.templateArgs p.declaredType with
          | nil => exact .arrayOfNone htemplate hargs
          | cons element more =>
              cases hstruct : isStructName element with
              | true =>
                  simp only [hstruct, if_true]
                  exact .structArray element more htemplate hargs hstruct
              | false =>
                  simp only [hstruct, Bool.false_eq_true, if_false]
                  exact .array element more htemplate hargs hstruct

theorem rule_classify :
    Rule table p (p.classify table).registration (p.classify table).extra :=
  rule_resolve table p

section

variable {table p}

theorem resolve_eq_classifyPlain (h : Template.ofType? p.declaredType = none) :
    resolve table p = classifyPlain table p := by
  rw [resolve, h]

/-- A pointer goes by what it points to, where neither a template nor a word of its type has a rule. -/
theorem resolve_of_pointer (hunmarked : Unmarked p.declaredType) (hpointer : '*' ∈ p.declaredType) :
    resolve table p = ((Pointee.ofType table p.declaredType).registration, p.extra) := by
  rw [resolve_eq_classifyPlain hunmarked.template, classifyPlain,
    if_neg (ne_true_of_eq_false hunmarked.curve), if_neg (ne_true_of_eq_false hunmarked.view),
    if_pos hpointer]

/-- Any other such property goes by its attributes, its name and its range. -/
theorem resolve_of_value (hunmarked : Unmarked p.declaredType) (hpointer : '*' ∉ p.declaredType) :
    resolve table p =
      if p.extra.contains scriptFileKey then (.script, p.extra)
      else if p.declaredType.trim = "FString" ∧ mentions ["script", "lua"] p.name then
        (.script, p.extra.insert scriptFileKey defaultScriptExtension)
      else if p.range.isSome then (.ranged, p.extra)
      else (.scalar, p.extra) := by
  rw [resolve_eq_classifyPlain hunmarked.template, classifyPlain,
    if_neg (ne_true_of_eq_false hunmarked.curve), if_neg (ne_true_of_eq_false hunmarked.view),
    if_neg hpointer]

/-- At most one rule applies to a property: the one that classification goes by. -/
theorem Rule.resolve_eq {form : Registration} {extra : Dict Text} (h : Rule table p form extra) :
    resolve table p = (form, extra) := by
  cases h with
  | subclassOf base more htemplate hargs => rw [resolve, htemplate, hargs]
  | subclassOfNone htemplate hargs => rw [resolve, htemplate, hargs]
  | map key value more htemplate hargs => rw [resolve, htemplate, hargs]
  | mapShort htemplate hargs =>
      rw [resolve, htemplate]
      rcases hshort : TypeName.templateArgs p.declaredType with _ | ⟨key, _ | ⟨value, more⟩⟩
      · rfl
      · rfl
      · rw [hshort, List.length_cons, List.length_cons] at hargs
        omega
  | structArray element more htemplate hargs hstruct =>
      rw [resolve, htemplate, hargs]
      exact if_pos hstruct
  | array element more htemplate hargs hstruct =>
      rw [resolve, htemplate, hargs]
      exact if_neg (ne_true_of_eq_false hstruct)
  | arrayOfNone htemplate hargs => rw [resolve, htemplate, hargs]
  | curve htemplate hcurve => rw [resolve_eq_classifyPlain htemplate, classifyPlain, if_pos hcurve]
  | view htemplate hcurve hview =>
      rw [resolve_eq_classifyPlain htemplate, classifyPlain,
        if_neg (ne_true_of_eq_false hcurve), if_pos hview]
  | resource r hunmarked hpointer hresource =>
      simp only [resolve_of_pointer hunmarked hpointer, Pointee.ofType, hresource,
        Pointee.registration]
  | learned e hunmarked hpointer hresource hentry =>
      simp only [resolve_of_pointer hunmarked hpointer, Pointee.ofType, hresource, hentry,
        Pointee.registration]
  | object hunmarked hpointer hresource hentry =>
      simp only [resolve_of_pointer hunmarked hpointer, Pointee.ofType, hresource, hentry,
        Pointee.registration]
  | scriptFile hunmarked hpointer hfile => rw [resolve_of_value hunmarked hpointer, if_pos hfile]
  | scriptName hunmarked hpointer hfile hname =>
      rw [resolve_of_value hunmarked hpointer, if_neg (ne_true_of_eq_false hfile), if_pos hname]
  | ranged hunmarked hpointer hfile hname hrange =>
      rw [resolve_of_value hunmarked hpointer, if_neg (ne_true_of_eq_false hfile), if_neg hname,
        if_pos hrange]
  | scalar hunmarked hpointer hfile hname hrange =>
      rw [resolve_of_value hunmarked hpointer, if_neg (ne_true_of_eq_false hfile), if_neg hname,
        if_neg (ne_true_of_eq_false hrange)]

theorem Rule.classify_eq {form : Registration} {extra : Dict Text} (h : Rule table p form extra) :
    p.classify table = { p with registration := form, extra := extra } := by
  rw [classify, h.resolve_eq]

end

/-! ## The operands of registration calls -/

/-- A classified property has what the call of its form takes beyond the declared type. -/
structure HasOperands (q : Property) : Prop where
  map : q.registration = .map → TypeName.IsOutermost q.declaredType "tmap" ∧
    ∀ key value more, TypeName.templateArgs q.declaredType = key :: value :: more →
      q.extra.get? keyTypeKey = some (ElementKind.ofType table key).tag ∧
      q.extra.get? valueTypeKey = some (ElementKind.ofType table value).tag
  array : q.registration = .array ∨ q.registration = .structArray →
    TypeName.IsOutermost q.declaredType "tarray"
  structArray : q.registration = .structArray →
    ∃ element more, TypeName.templateArgs q.declaredType = element :: more ∧
      q.extra.get? structTypeKey = some element ∧
      q.extra.get? innerTypeKey = some (ElementKind.ofType table element).tag
  ranged : q.registration = .ranged → q.range.isSome = true
  script : q.registration = .script → q.extra.contains scriptFileKey = true

/-- The forms whose calls take more than the declared type. -/
def formsWithOperands : List Registration :=
  [.map, .array, .structArray, .ranged, .script]

variable {table p}

theorem hasOperands_of_notMem {q : Property} (h : q.registration ∉ formsWithOperands) :
    HasOperands table q := by
  simp only [formsWithOperands, List.mem_cons, List.not_mem_nil, or_false, not_or] at h
  obtain ⟨hmap, harray, hstructArray, hranged, hscript⟩ := h
  exact ⟨fun h => absurd h hmap, fun h => absurd h (not_or.mpr ⟨harray, hstructArray⟩),
    fun h => absurd h hstructArray, fun h => absurd h hranged, fun h => absurd h hscript⟩

/-- No resource is registered by a call that takes more than the declared type. -/
theorem registration_notMem_of_ofPointer? {type : Text} {r : Resource}
    (h : Resource.ofPointer? type = some r) : r.registration ∉ formsWithOperands := by
  have hall : ∀ entry ∈ Resource.byName, entry.2.registration ∉ formsWithOperands := by decide
  obtain ⟨entry, hentry, rfl⟩ := Option.map_eq_some_iff.mp h
  exact hall entry (List.mem_of_find?_eq_some hentry)

/-- A macro of the table decides how a pointer is registered: no rule comes before, and it is the
first of the table that the type names. -/
structure Learned (table : MacroTable) (type : Text) (e : MacroEntry) : Prop where
  unmarked : Unmarked type
  pointer : '*' ∈ type
  resource : Resource.ofPointer? type = none
  entry : table.forType? type = some e
  kind : e.kind ∉ ["Array".toList, "ScriptFile".toList]

theorem kind_notMem_of_forType? {type : Text} {e : MacroEntry}
    (h : table.forType? type = some e) : e.kind ∉ ["Array".toList, "ScriptFile".toList] := by
  rw [MacroTable.forType?] at h
  split at h
  · have hnamed : e.namedIn type = true := by simpa using List.find?_some h
    exact MacroEntry.kind_notMem_of_namedIn hnamed
  · cases h

/-- **Built-in rules record the operands.** A classified property has what the call of its form
takes, unless a macro of the table, with the very name of that call, decided the form. -/
theorem operands_recorded_or_learned (table : MacroTable) (p : Property) :
    HasOperands table (p.classify table) ∨
      ∃ e, Learned table p.declaredType e ∧
        e.name = (p.classify table).registration.macroName := by
  have hrule := rule_classify table p
  generalize hform : (p.classify table).registration = form at hrule
  generalize hextra : (p.classify table).extra = extra at hrule
  cases hrule with
  | map key value more htemplate hargs =>
      refine Or.inl ⟨fun _ => ⟨Template.isOutermost_of_ofType? htemplate, ?_⟩, ?_, ?_, ?_, ?_⟩
      · intro key' value' more' hargs'
        obtain ⟨rfl, rfl, rfl⟩ : key = key' ∧ value = value' ∧ more = more' := by
          simpa using hargs.symm.trans hargs'
        have hne : valueTypeKey ≠ keyTypeKey := by decide
        rw [hextra, Dict.get?_insert, Dict.get?_insert, Dict.get?_insert, if_neg hne, if_pos rfl,
          if_pos rfl]
        exact ⟨rfl, rfl⟩
      all_goals simp [hform]
  | mapShort htemplate hargs =>
      refine Or.inl ⟨fun _ => ⟨Template.isOutermost_of_ofType? htemplate, ?_⟩, ?_, ?_, ?_, ?_⟩
      · intro key value more hargs'
        have hlength : (TypeName.templateArgs p.declaredType).length = more.length + 2 :=
          congrArg List.length hargs'
        omega
      all_goals simp [hform]
  | structArray element more htemplate hargs hstruct =>
      refine Or.inl ⟨?_, fun _ => Template.isOutermost_of_ofType? htemplate,
        fun _ => ⟨element, more, hargs, ?_, ?_⟩, ?_, ?_⟩
      · simp [hform]
      · rw [hextra, Dict.get?_insert, if_pos rfl]
      · have hne : structTypeKey ≠ innerTypeKey := by decide
        rw [hextra, Dict.get?_insert, if_neg hne, Dict.get?_insert, if_pos rfl]
      all_goals simp [hform]
  | array element more htemplate hargs hstruct =>
      refine Or.inl ⟨?_, fun _ => Template.isOutermost_of_ofType? htemplate, ?_, ?_, ?_⟩
      all_goals simp [hform]
  | arrayOfNone htemplate hargs =>
      refine Or.inl ⟨?_, fun _ => Template.isOutermost_of_ofType? htemplate, ?_, ?_, ?_⟩
      all_goals simp [hform]
  | scriptFile hunmarked hpointer hfile =>
      refine Or.inl ⟨?_, ?_, ?_, ?_, fun _ => hextra ▸ hfile⟩
      all_goals simp [hform]
  | scriptName hunmarked hpointer hfile hname =>
      refine Or.inl ⟨?_, ?_, ?_, ?_, fun _ => ?_⟩
      case refine_5 => rw [hextra, Dict.contains, Dict.get?_insert, if_pos rfl, Option.isSome_some]
      all_goals simp [hform]
  | ranged hunmarked hpointer hfile hname hrange =>
      refine Or.inl ⟨?_, ?_, ?_, fun _ => hrange, ?_⟩
      all_goals simp [hform]
  | learned e hunmarked hpointer hresource hentry =>
      have hkind := kind_notMem_of_forType? hentry
      refine Or.inr ⟨e, ⟨hunmarked, hpointer, hresource, hentry, hkind⟩, ?_⟩
      rw [Registration.macroName_ofMacroName]
  | resource r hunmarked hpointer hresource =>
      exact Or.inl (hasOperands_of_notMem (hform ▸ registration_notMem_of_ofPointer? hresource))
  | _ =>
      -- plain values, curves, views and object pointers take the declared type only
      exact Or.inl (hasOperands_of_notMem (by rw [hform]; decide))

/-- A table in which the macro for ranges registers numbers. -/
def rangeTable : MacroTable :=
  MacroTable.parse "#define ADD_PROPERTY_RANGE(T, N) \x7b Prop.Type = EPropertyType::Float; \x7d"

/-- A pointer that names the kind of the macro for ranges gets its form without having a range. -/
theorem ranged_without_range :
    ((bare "Box" "UFloatBox*").classify rangeTable).registration = .ranged ∧
      ((bare "Box" "UFloatBox*").classify rangeTable).range = none := by
  decide +kernel

end Property

end Registrar
