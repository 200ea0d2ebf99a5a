import Registrar.Proofs.Classification

/-!
# Classifying again

Classification writes what it finds into the attributes that it reads, so a second pass need not come
to the rule of the first: a property that was taken for a script by its name has a script file
afterwards. It comes to the same end all the same. To a property that a rule has been applied to, a
rule with the same form and the same attributes applies (`Property.Rule.again`), and no other does
(`Property.Rule.resolve_eq`).

Whatever the rule, the declaration stays as it is, and so do the attributes that no rule finds
(`Property.Rule.get?_eq_or`).
-/

namespace Registrar

namespace Dict

variable {α : Type} {d : Dict α}

/-- An entry that is there already changes nothing. -/
theorem insert_eq_self {key : Text} {value : α} (h : d.get? key = some value) :
    d.insert key value = d := by
  apply ext_get?
  intro k
  by_cases hk : key = k
  · rw [← hk, get?_insert_self, h]
  · rw [get?_insert_of_ne hk]

theorem insert_again (d : Dict α) (key : Text) (value : α) :
    (d.insert key value).insert key value = d.insert key value :=
  insert_eq_self (get?_insert_self d key value)

/-- Of two entries with different keys, neither gives way to the other. -/
theorem insert_insert_again {first second : Text} (hne : second ≠ first) (d : Dict α) (a b : α) :
    (((d.insert first a).insert second b).insert first a).insert second b =
      (d.insert first a).insert second b := by
  have hfirst : ((d.insert first a).insert second b).get? first = some a := by
    rw [get?_insert_of_ne hne, get?_insert_self]
  rw [insert_eq_self hfirst, insert_again]

end Dict

namespace Property

variable {table : MacroTable} {p : Property} {form : Registration} {extra : Dict Text}

/-! ## The attributes that stay -/

/-- The attributes that are found by taking a type apart. -/
def foundKeys : List Text :=
  [baseClassKey, keyTypeKey, valueTypeKey, innerTypeKey, structTypeKey]

/-- An attribute that is not found by taking the type apart stays as it is, unless it is the script
file that was missing. -/
theorem Rule.get?_eq_or {key : Text} (h : Rule table p form extra) (hkey : key ∉ foundKeys) :
    extra.get? key = p.extra.get? key ∨ key = scriptFileKey ∧ p.extra.get? key = none := by
  have hother : ∀ found ∈ foundKeys, found ≠ key := fun found hfound heq => hkey (heq ▸ hfound)
  simp only [foundKeys, List.forall_mem_cons] at hother
  obtain ⟨hbase, hkeyType, hvalueType, hinner, hstruct, -⟩ := hother
  cases h with
  | subclassOf base more htemplate hargs =>
      left
      rw [Dict.get?_insert_of_ne hbase]
  | map keyType valueType more htemplate hargs =>
      left
      rw [Dict.get?_insert_of_ne hvalueType, Dict.get?_insert_of_ne hkeyType]
  | structArray element more htemplate hargs hstructName =>
      left
      rw [Dict.get?_insert_of_ne hstruct, Dict.get?_insert_of_ne hinner]
  | array element more htemplate hargs hstructName =>
      left
      rw [Dict.get?_insert_of_ne hinner]
  | scriptName hunmarked hpointer hfile hname =>
      by_cases hscript : scriptFileKey = key
      · right
        rw [Dict.contains, hscript, Option.isSome_eq_false_iff, Option.isNone_iff_eq_none] at hfile
        exact ⟨hscript.symm, hfile⟩
      · left
        rw [Dict.get?_insert_of_ne hscript]
  | _ => exact Or.inl rfl

/-! ## The second pass -/

/-- Where a rule has been applied it applies again, or one that comes to the same. -/
theorem Rule.again (h : Rule table p form extra) :
    Rule table { p with registration := form, extra := extra } form extra := by
  cases h with
  | subclassOf base more htemplate hargs =>
      have hrule : Rule table { p with
          registration := .scalar, extra := p.extra.insert baseClassKey base } _ _ :=
        .subclassOf base more htemplate hargs
      rwa [Dict.insert_again] at hrule
  | map key value more htemplate hargs =>
      have hne : valueTypeKey ≠ keyTypeKey := by decide
      have hrule : Rule table { p with
          registration := .map
          extra := (p.extra.insert keyTypeKey (ElementKind.ofType table key).tag).insert
            valueTypeKey (ElementKind.ofType table value).tag } _ _ :=
        .map key value more htemplate hargs
      rwa [Dict.insert_insert_again hne] at hrule
  | structArray element more htemplate hargs hstruct =>
      have hne : structTypeKey ≠ innerTypeKey := by decide
      have hrule : Rule table { p with
          registration := .structArray
          extra := (p.extra.insert innerTypeKey (ElementKind.ofType table element).tag).insert
            structTypeKey element } _ _ :=
        .structArray element more htemplate hargs hstruct
      rwa [Dict.insert_insert_again hne] at hrule
  | array element more htemplate hargs hstruct =>
      have hrule : Rule table { p with
          registration := .array
          extra := p.extra.insert innerTypeKey (ElementKind.ofType table element).tag } _ _ :=
        .array element more htemplate hargs hstruct
      rwa [Dict.insert_again] at hrule
  | scriptName hunmarked hpointer hfile hname =>
      -- the extension that was filled in now counts as declared
      refine .scriptFile hunmarked hpointer ?_
      rw [Dict.contains, Dict.get?_insert_self, Option.isSome_some]
  | subclassOfNone htemplate hargs => exact .subclassOfNone htemplate hargs
  | mapShort htemplate hargs => exact .mapShort htemplate hargs
  | arrayOfNone htemplate hargs => exact .arrayOfNone htemplate hargs
  | curve htemplate hcurve => exact .curve htemplate hcurve
  | view htemplate hcurve hview => exact .view htemplate hcurve hview
  | resource r hunmarked hpointer hresource => exact .resource r hunmarked hpointer hresource
  | learned e hunmarked hpointer hresource hentry =>
      exact .learned e hunmarked hpointer hresource hentry
  | object hunmarked hpointer hresource hentry => exact .object hunmarked hpointer hresource hentry
  | scriptFile hunmarked hpointer hfile => exact .scriptFile hunmarked hpointer hfile
  | ranged hunmarked hpointer hfile hname hrange =>
      exact .ranged hunmarked hpointer hfile hname hrange
  | scalar hunmarked hpointer hfile hname hrange =>
      exact .scalar hunmarked hpointer hfile hname hrange

theorem classify_again (table : MacroTable) (p : Property) :
    (p.classify table).classify table = p.classify table :=
  (rule_classify table p).again.classify_eq

/-- **Classification touches its own outputs only, and settles them at once.** Nothing but the form and
the attributes changes. An attribute outside those that are found by taking a type apart keeps its
value, and the only one that can come in is the script file. To classify the result again changes
nothing, the form included. -/
theorem classify_settles (table : MacroTable) (p : Property) :
    p.classify table = { p with
        registration := (p.classify table).registration, extra := (p.classify table).extra } ∧
      (∀ key ∉ foundKeys,
        (∀ value, p.extra.get? key = some value →
          (p.classify table).extra.get? key = some value) ∧
        (key ≠ scriptFileKey → (p.classify table).extra.get? key = p.extra.get? key)) ∧
      (p.classify table).classify table = p.classify table := by
  refine ⟨rfl, ?_, classify_again table p⟩
  intro key hkey
  constructor
  · intro value hvalue
    rcases (rule_classify table p).get?_eq_or hkey with hsame | ⟨-, hnone⟩
    · exact hsame.trans hvalue
    · rw [hnone] at hvalue
      cases hvalue
  · intro hscript
    exact ((rule_classify table p).get?_eq_or hkey).resolve_right fun h => hscript h.1

/-- A property that is a script by its name, declares an extension of its own, and was classified as
something else before. -/
def declaredScript : Property :=
  { bare "LuaScript" "FString" with
    extra := (Dict.empty.insert scriptAccessKey Attributes.flagValue).insert scriptFileKey ".py"
    registration := .map }

theorem classify_settles_script :
    scriptFileKey ∉ foundKeys ∧ scriptAccessKey ∉ foundKeys ∧ scriptAccessKey ≠ scriptFileKey ∧
      declaredScript.extra.get? scriptFileKey = some ".py".toList ∧
      (declaredScript.classify rangeTable).extra.get? scriptFileKey = some ".py".toList ∧
      (declaredScript.classify rangeTable).extra.get? scriptAccessKey =
        some Attributes.flagValue ∧
      (declaredScript.classify rangeTable).registration = .script ∧
      (declaredScript.classify rangeTable).classify rangeTable =
        declaredScript.classify rangeTable := by
  have hfile : scriptFileKey ∉ foundKeys := by decide
  have haccess : scriptAccessKey ∉ foundKeys := by decide
  have hne : scriptAccessKey ≠ scriptFileKey := by decide
  have hextension : declaredScript.extra.get? scriptFileKey = some ".py".toList := by decide
  obtain ⟨-, hkeys, hagain⟩ := classify_settles rangeTable declaredScript
  exact ⟨hfile, haccess, hne, hextension, (hkeys _ hfile).1 _ hextension,
    ((hkeys _ haccess).2 hne).trans (by decide), by decide +kernel, hagain⟩

end Property

end Registrar
