import Registrar.Proofs.Classification
import Registrar.Proofs.JsonRoundTrip
import Registrar.Proofs.MacroCalls
import Registrar.Proofs.SourceNames

/-!
# How many arguments a registration call has

A registration call is spliced together from a declared type, a name, kinds, numbers and literals,
and a macro reads it back by the rules of `MacroCall.read?`. Names, kinds and numbers hold no comma,
and a literal is closed whatever it says. A type is spliced as it was declared: each of its commas
divides it.

The main statement counts the arguments of every call that any header and any macro table lead to:
what the macro takes, one more for a tooltip, and one more for each comma of the type.
-/

namespace Registrar

open MacroCall

/-! ## Operands without commas -/

/-- A character that a macro call neither divides at nor counts. -/
def IsInert (c : Char) : Prop :=
  c ∉ [',', '"', '(', ')']

instance : DecidablePred IsInert := fun c =>
  inferInstanceAs (Decidable (c ∉ [',', '"', '(', ')']))

theorem isInert_of_isWord {c : Char} (h : Text.isWord c = true) : IsInert c :=
  Text.notMem_of_class (by decide) h

/-- Text of inert characters is one operand. -/
theorem passes_of_inert {x : Text} (h : ∀ c ∈ x, IsInert c) : Passes (.code 0) x 0 (.code 0) := by
  have hpasses := Passes.plain fun c hc hmem => h c hc (List.mem_cons_of_mem _ hmem)
  have hcount : x.count ',' = 0 := by
    refine List.count_eq_zero.mpr fun hcomma => ?_
    exact absurd (h ',' hcomma) (by decide)
  rwa [hcount] at hpasses

/-- A type is divided at each of its commas. -/
theorem passes_of_isTypeChar {x : Text} (h : ∀ c ∈ x, PropertyDeclaration.isTypeChar c = true) :
    Passes (.code 0) x (x.count ',') (.code 0) := by
  have hclass : ['"', '(', ')'].any PropertyDeclaration.isTypeChar = false := by decide
  exact Passes.plain fun c hc => Text.notMem_of_class hclass (h c hc)

namespace DecimalLayout

theorem isInert_ofNat (n : Nat) : ∀ c ∈ Text.ofNat n, IsInert c :=
  fun _ h => Text.notMem_of_class (by decide) (Text.isDigit_of_mem_ofNat h)

theorem isInert_ofInt (n : Int) : ∀ c ∈ Text.ofInt n, IsInert c := by
  cases n with
  | ofNat n => exact isInert_ofNat n
  | negSucc n => exact List.forall_mem_cons.mpr ⟨by decide, isInert_ofNat (n + 1)⟩

theorem isInert_zeros (n : Nat) : ∀ c ∈ zeros n, IsInert c := by
  intro c h
  rw [List.eq_of_mem_replicate h]
  decide

variable {digits : Text} (hdigits : ∀ c ∈ digits, IsInert c) (point : Int)

include hdigits

theorem isInert_plain : ∀ c ∈ plain digits point, IsInert c := by
  have htake : ∀ n, ∀ c ∈ digits.take n, IsInert c := fun _ c h =>
    hdigits c (List.mem_of_mem_take h)
  have hdrop : ∀ n, ∀ c ∈ digits.drop n, IsInert c := fun _ c h =>
    hdigits c (List.mem_of_mem_drop h)
  unfold plain
  split
  · simp only [List.forall_mem_append]
    refine ⟨⟨⟨htake _, isInert_zeros _⟩, Text.forall_mem_of_all (by decide)⟩, ?_⟩
    split
    · exact Text.forall_mem_of_all (by decide)
    · exact hdrop _
  · simp only [List.forall_mem_append]
    exact ⟨⟨Text.forall_mem_of_all (by decide), isInert_zeros _⟩, hdigits⟩

theorem isInert_scientific (layout : DecimalLayout) :
    ∀ c ∈ layout.scientific digits point, IsInert c := by
  have htake : ∀ c ∈ digits.take 1, IsInert c := fun c h => hdigits c (List.mem_of_mem_take h)
  have hdrop : ∀ c ∈ digits.drop 1, IsInert c := fun c h => hdigits c (List.mem_of_mem_drop h)
  unfold scientific
  simp only [List.forall_mem_append]
  refine ⟨⟨⟨⟨htake, ?_⟩, Text.forall_mem_of_all (by decide)⟩, ?_⟩, isInert_ofInt _⟩
  · split
    · exact Text.forall_mem_of_all (by decide)
    · exact List.forall_mem_cons.mpr ⟨by decide, hdrop⟩
  · split <;> exact Text.forall_mem_of_all (by decide)

omit hdigits

theorem isInert_write (layout : DecimalLayout) (negative : Bool) (mantissa : Nat) (exponent : Int) :
    ∀ c ∈ layout.write negative mantissa exponent, IsInert c := by
  have hsign : ∀ c ∈ (if negative then "-" else "" : Text), IsInert c := by
    split <;> exact Text.forall_mem_of_all (by decide)
  have hdigits : ∀ n, ∀ c ∈ (Text.splitTail (· == '0') (Text.ofNat n)).1, IsInert c := by
    intro n c h
    have hmem := (List.dropWhile_sublist _).mem (List.mem_reverse.mp h)
    exact isInert_ofNat n c (List.mem_reverse.mp hmem)
  unfold write
  dsimp only
  generalize (if negative then "-".toList else "".toList) = sign at hsign
  split
  · refine List.forall_mem_append.mpr ⟨hsign, ?_⟩
    exact Text.forall_mem_of_all (by decide)
  · split
    · exact List.forall_mem_append.mpr ⟨hsign, isInert_plain (hdigits _) _⟩
    · exact List.forall_mem_append.mpr ⟨hsign, isInert_scientific (hdigits _) _ layout⟩

end DecimalLayout

/-- Numbers are written with inert characters. -/
theorem isInert_number (n : Single) : ∀ c ∈ Artifact.number n, IsInert c := by
  cases n with
  | finite negative mantissa exponent =>
      exact DecimalLayout.isInert_write _ negative mantissa exponent
  | infinite negative => cases negative <;> exact Text.forall_mem_of_all (by decide)
  | nan => exact Text.forall_mem_of_all (by decide)

/-! ## What a property splices into its call -/

namespace Property

/-- The attributes for the kinds of a container's elements. -/
def kindKeys : List Text :=
  [innerTypeKey, keyTypeKey, valueTypeKey]

/-- What an attribute that calls splice is made of: a structure of the characters of types, and a
kind of inert ones. -/
structure Fits (key value : Text) : Prop where
  struct_ : key = structTypeKey → ∀ c ∈ value, PropertyDeclaration.isTypeChar c = true
  kind : key ∈ kindKeys → ∀ c ∈ value, IsInert c

/-- What a call splices of a property is divided at the commas of types only. -/
structure Spliceable (p : Property) : Prop where
  name : ∀ c ∈ p.name, Text.isWord c = true
  type : ∀ c ∈ p.declaredType, PropertyDeclaration.isTypeChar c = true
  extra : ∀ key value, p.extra.get? key = some value → Fits key value

theorem fits_other {key : Text} (hstruct : key ≠ structTypeKey) (hkind : key ∉ kindKeys)
    (value : Text) : Fits key value :=
  ⟨fun h => absurd h hstruct, fun h => absurd h hkind⟩

theorem fits_kind {key value : Text} (hkey : key ≠ structTypeKey) (h : ∀ c ∈ value, IsInert c) :
    Fits key value :=
  ⟨fun hstruct => absurd hstruct hkey, fun _ => h⟩

theorem fits_insert {d : Dict Text} {newKey newValue : Text}
    (hd : ∀ key value, d.get? key = some value → Fits key value) (hnew : Fits newKey newValue) :
    ∀ key value, (d.insert newKey newValue).get? key = some value → Fits key value := by
  intro key value h
  rw [Dict.get?_insert] at h
  split at h
  · next heq =>
    cases h
    exact heq ▸ hnew
  · exact hd key value h

section Classified

variable {table : MacroTable} (htable : ∀ e ∈ table.entries, MacroTable.Worded e)

include htable

/-- The kind of an element is an inert operand. -/
theorem isInert_tag (type : Text) : ∀ c ∈ (ElementKind.ofType table type).tag, IsInert c := by
  have hvalues : ∀ entry ∈ ElementKind.values,
      entry.2.tag.all (fun c => decide (IsInert c)) = true := by decide
  have hresources : ∀ entry ∈ Resource.byName,
      entry.2.kind.tag.all (fun c => decide (IsInert c)) = true := by decide
  have hpointee : ∀ name, ∀ c ∈ (Pointee.ofType table name).kind.tag, IsInert c := by
    intro name
    rw [Pointee.ofType]
    split
    · next r hr =>
      obtain ⟨entry, hentry, rfl⟩ := Option.map_eq_some_iff.mp hr
      exact Text.forall_mem_of_all (hresources entry (List.mem_of_find?_eq_some hentry))
    · split
      · next e he =>
        have hworded := htable e (MacroTable.mem_of_forType? he)
        refine List.forall_mem_append.mpr ⟨Text.forall_mem_of_all (by decide), ?_⟩
        exact fun c hc => isInert_of_isWord (hworded.kind_word c hc)
      · exact Text.forall_mem_of_all (by decide)
  rw [ElementKind.ofType]
  split
  · next entry hentry =>
    exact Text.forall_mem_of_all (hvalues entry (List.mem_of_find?_eq_some hentry))
  · split
    · exact hpointee _
    · split <;> exact Text.forall_mem_of_all (by decide)

/-- **Classification keeps a property spliceable.** -/
theorem Spliceable.classify {p : Property} (h : Spliceable p) : Spliceable (p.classify table) := by
  refine ⟨h.name, h.type, ?_⟩
  have hrule := rule_classify table p
  generalize (p.classify table).registration = form at hrule
  generalize (p.classify table).extra = extra at hrule
  cases hrule with
  | subclassOf base more htemplate hargs =>
      exact fits_insert h.extra (fits_other (by decide) (by decide) base)
  | map key value more htemplate hargs =>
      refine fits_insert (fits_insert h.extra ?_) ?_
      · exact fits_kind (by decide) (isInert_tag htable key)
      · exact fits_kind (by decide) (isInert_tag htable value)
  | structArray element more htemplate hargs hstruct =>
      have helement : element ∈ TypeName.templateArgs p.declaredType :=
        hargs ▸ List.mem_cons_self
      refine fits_insert (fits_insert h.extra ?_) ⟨fun _ c hc => ?_, fun hkind => ?_⟩
      · exact fits_kind (by decide) (isInert_tag htable element)
      · exact h.type c (TypeName.mem_of_mem_templateArgs helement hc)
      · exact absurd hkind (by decide)
  | array element more htemplate hargs hstruct =>
      exact fits_insert h.extra (fits_kind (by decide) (isInert_tag htable element))
  | scriptName hunmarked hpointer hfile hname =>
      exact fits_insert h.extra (fits_other (by decide) (by decide) _)
  | _ => exact h.extra

end Classified

/-- The operand of a property's call that is a type. Arrays and maps are registered by the kinds of
their elements. -/
def typeOperand (p : Property) : Text :=
  match p.registration with
  | .array => []
  | .map => []
  | .structArray => p.extra.getD structTypeKey "Unknown"
  | _ => p.declaredType

/-- What an attribute is spliced as when a fallback stands in for a missing one. -/
theorem Spliceable.kind_getD {p : Property} (h : Spliceable p) {key fallback : Text}
    (hkey : key ∈ kindKeys) (hfallback : ∀ c ∈ fallback, IsInert c) :
    ∀ c ∈ p.extra.getD key fallback, IsInert c := by
  rw [Dict.getD]
  cases hvalue : p.extra.get? key with
  | none => exact hfallback
  | some value => exact (h.extra key value hvalue).kind hkey

theorem Spliceable.struct_getD {p : Property} (h : Spliceable p) :
    ∀ c ∈ p.extra.getD structTypeKey "Unknown", PropertyDeclaration.isTypeChar c = true := by
  rw [Dict.getD]
  cases hvalue : p.extra.get? structTypeKey with
  | none => exact List.all_eq_true.mp (by decide)
  | some value => exact (h.extra _ value hvalue).struct_ rfl

/-- **Only a type is divided**, at each of its commas, of all that stands in a call before the
flag. -/
theorem Spliceable.operands_leading {p : Property} (h : Spliceable p) :
    Operands (Artifact.leadingArguments p) (p.typeOperand.count ',') := by
  have hname := passes_of_inert fun c hc => isInert_of_isWord (h.name c hc)
  have htype := passes_of_isTypeChar h.type
  have hlast : Operands [p.name, Artifact.quote p.category] 0 :=
    .cons hname (.cons (.quote _) .nil)
  have hnumber : ∀ n, Passes (.code 0) (Artifact.number n ++ "f") 0 (.code 0) := by
    intro n
    apply passes_of_inert
    exact List.forall_mem_append.mpr ⟨isInert_number n, Text.forall_mem_of_all (by decide)⟩
  cases hform : p.registration with
  | ranged =>
      simp only [Artifact.leadingArguments, typeOperand, hform]
      have hrange : ∀ low high, Operands [Artifact.number low ++ "f", Artifact.number high ++ "f"] 0 :=
        fun _ _ => .cons (hnumber _) (.cons (hnumber _) .nil)
      exact .cons htype (.cons hname (.cons (.quote _) (hrange _ _)))
  | structArray =>
      simp only [Artifact.leadingArguments, typeOperand, hform]
      exact .cons (passes_of_isTypeChar h.struct_getD) hlast
  | array =>
      simp only [Artifact.leadingArguments, typeOperand, hform]
      refine .cons (passes_of_inert ?_) hlast
      exact h.kind_getD (by decide) (Text.forall_mem_of_all (by decide))
  | map =>
      simp only [Artifact.leadingArguments, typeOperand, hform]
      refine .cons (passes_of_inert ?_) (.cons (passes_of_inert ?_) hlast)
      · exact h.kind_getD (by decide) (Text.forall_mem_of_all (by decide))
      · exact h.kind_getD (by decide) (Text.forall_mem_of_all (by decide))
  | script =>
      simp only [Artifact.leadingArguments, typeOperand, hform]
      exact .cons htype (.cons hname (.cons (.quote _) (.cons (.quote _) .nil)))
  | _ =>
      simp only [Artifact.leadingArguments, typeOperand, hform]
      exact .cons htype hlast

/-! ## How many arguments a macro takes -/

/-- The arguments that a registration macro takes before a tooltip. -/
def arity (macroName : Text) : Nat :=
  if macroName = "ADD_PROPERTY_RANGE" then 6
  else if macroName = "ADD_PROPERTY_MAP" ∨ macroName = "ADD_PROPERTY_SCRIPT" then 5
  else 4

/-- The operands that the call of a form has before the flag. -/
def operandCount : Registration → Nat
  | .ranged => 5
  | .map => 4
  | .script => 4
  | _ => 3

theorem length_leadingArguments (p : Property) :
    (Artifact.leadingArguments p).length = operandCount p.registration := by
  unfold Artifact.leadingArguments operandCount
  cases p.registration <;> rfl

/-- A form whose macro is named by a word and takes what its call writes. -/
structure Callable (form : Registration) : Prop where
  name_ne_nil : form.macroName ≠ []
  name_word : ∀ c ∈ form.macroName, Text.isWord c = true
  arity_eq : arity form.macroName = operandCount form + 1

theorem callable_builtin {entry : Registration × Text} (h : entry ∈ Registration.builtin) :
    Callable entry.1 := by
  have hne : ∀ entry ∈ Registration.builtin, entry.1.macroName ≠ [] := by decide
  have hword : ∀ entry ∈ Registration.builtin, entry.1.macroName.all Text.isWord = true := by decide
  have harity : ∀ entry ∈ Registration.builtin,
      arity entry.1.macroName = operandCount entry.1 + 1 := by decide
  exact ⟨hne entry h, List.all_eq_true.mp (hword entry h), harity entry h⟩

/-- A macro of the table that bears no built-in name takes four arguments, and a built-in name gives
its own form. -/
theorem callable_ofMacroName {name : Text} (hne : name ≠ [])
    (hword : ∀ c ∈ name, Text.isWord c = true) : Callable (.ofMacroName name) := by
  rw [Registration.ofMacroName]
  cases hfind : Registration.builtin.find? fun entry => entry.2 = name with
  | some entry => exact callable_builtin (List.mem_of_find?_eq_some hfind)
  | none =>
      have hother : ∀ entry ∈ Registration.builtin, entry.2 ≠ name := by
        simpa using List.find?_eq_none.mp hfind
      have hrange : name ≠ "ADD_PROPERTY_RANGE" :=
        fun h => hother (.ranged, "ADD_PROPERTY_RANGE") (by decide) h.symm
      have hmap : name ≠ "ADD_PROPERTY_MAP" :=
        fun h => hother (.map, "ADD_PROPERTY_MAP") (by decide) h.symm
      have hscript : name ≠ "ADD_PROPERTY_SCRIPT" :=
        fun h => hother (.script, "ADD_PROPERTY_SCRIPT") (by decide) h.symm
      refine ⟨hne, hword, ?_⟩
      show arity name = 4
      rw [arity, if_neg hrange, if_neg (not_or.mpr ⟨hmap, hscript⟩)]

/-- **Classification gives callable forms only.** -/
theorem callable_classify {table : MacroTable} (htable : ∀ e ∈ table.entries, MacroTable.Worded e)
    (p : Property) : Callable (p.classify table).registration := by
  have hrule := rule_classify table p
  generalize (p.classify table).registration = form at hrule
  generalize (p.classify table).extra = extra at hrule
  cases hrule with
  | learned e hunmarked hpointer hresource hentry =>
      have hworded := htable e (MacroTable.mem_of_forType? hentry)
      exact callable_ofMacroName hworded.name_ne_nil hworded.name_word
  | resource r hunmarked hpointer hresource =>
      have hforms : ∀ entry ∈ Resource.byName,
          ∃ built ∈ Registration.builtin, built.1 = entry.2.registration := by decide
      obtain ⟨entry, hentry, rfl⟩ := Option.map_eq_some_iff.mp hresource
      obtain ⟨built, hbuilt, hform⟩ := hforms entry (List.mem_of_find?_eq_some hentry)
      exact hform ▸ callable_builtin hbuilt
  | _ => exact ⟨by decide, List.all_eq_true.mp (by decide), rfl⟩

/-- The call of a spliceable property, once it is classified. -/
theorem Spliceable.read?_propertyLine {table : MacroTable}
    (htable : ∀ e ∈ table.entries, MacroTable.Worded e) {p : Property} (h : Spliceable p) :
    ∃ args, read? (Artifact.propertyLine (p.classify table)) =
        some ((p.classify table).registration.macroName, args) ∧
      args.length = arity (p.classify table).registration.macroName +
        (if (p.classify table).tooltip = [] then 0 else 1) +
        (p.classify table).typeOperand.count ',' := by
  generalize hq : p.classify table = q
  have hcallable : Callable q.registration := hq ▸ callable_classify htable p
  have hleading := (hq ▸ h.classify htable : Spliceable q).operands_leading
  have hflag : Operands [if q.isEditable then "true" else "false"] 0 :=
    .cons (passes_of_inert (by split <;> exact Text.forall_mem_of_all (by decide))) .nil
  have htooltip : Operands (if q.tooltip = [] then [] else [Artifact.quote q.tooltip]) 0 := by
    split
    · exact .nil
    · exact .cons (.quote _) .nil
  obtain ⟨args, hread, hlength⟩ := read?_call hcallable.name_ne_nil hcallable.name_word
    (List.append_ne_nil_of_left_ne_nil (List.append_ne_nil_of_right_ne_nil _
      (List.cons_ne_nil _ _)) _) ((hleading.append hflag).append htooltip)
  refine ⟨args, hread, ?_⟩
  have hcount : (if q.tooltip = [] then [] else [Artifact.quote q.tooltip]).length =
      if q.tooltip = [] then 0 else 1 := by
    split <;> rfl
  rw [hlength, List.length_append, List.length_append, length_leadingArguments, hcount,
    List.length_singleton, hcallable.arity_eq]
  omega

end Property

/-! ## Properties of a header -/

namespace Property

/-- What the property of a declaration takes over. -/
theorem of_ofDeclaration {d : PropertyDeclaration} {p : Property} (h : ofDeclaration d = .ok p) :
    p.name = d.name ∧ p.declaredType = d.type ∧
      p.extra = declaredExtra (Attributes.parse d.arguments) := by
  unfold ofDeclaration at h
  dsimp only at h
  split at h
  · cases h
    exact ⟨rfl, rfl, rfl⟩
  · split at h
    · cases h
      exact ⟨rfl, rfl, rfl⟩
    · cases h

/-- No attribute that a declaration passes on is spliced as a type or a kind. -/
theorem fits_declaredExtra (attributes : Attributes) :
    ∀ key value, (declaredExtra attributes).get? key = some value → Fits key value := by
  have hempty : ∀ key value, (Dict.empty : Dict Text).get? key = some value → Fits key value := by
    intro key value h
    cases h
  have haccess : ∀ value, Fits scriptAccessKey value := fits_other (by decide) (by decide)
  have hscript : ∀ value, Fits scriptFileKey value := fits_other (by decide) (by decide)
  unfold declaredExtra
  dsimp only
  split <;> split
  · exact fits_insert (fits_insert hempty (haccess _)) (hscript _)
  · exact fits_insert hempty (haccess _)
  · exact fits_insert hempty (hscript _)
  · exact hempty

theorem spliceable_of_declaration {d : PropertyDeclaration} {p : Property}
    (htype : ∀ c ∈ d.type, PropertyDeclaration.isTypeChar c = true)
    (hname : ∀ c ∈ d.name, Text.isWord c = true) (h : ofDeclaration d = .ok p) : Spliceable p := by
  obtain ⟨hname', htype', hextra⟩ := of_ofDeclaration h
  exact ⟨hname' ▸ hname, htype' ▸ htype, hextra ▸ fits_declaredExtra _⟩

/-- The property for the name of an object is spliceable before it is classified. -/
theorem exists_spliceable_of_objectName? {table : MacroTable} {e : Entity} {p : Property}
    (h : e.objectName? table = some p) :
    ∃ declared : Property, declared.Spliceable ∧ p = declared.classify table := by
  have hnamed : ∀ category owner : String, Spliceable { Property.bare "ObjectName" "FName" with
      category := category, isEditable := true, tooltip := "Name of this " ++ owner } := by
    intro category owner
    have hname : ∀ c ∈ ("ObjectName" : Text), Text.isWord c = true :=
      List.all_eq_true.mp (by decide)
    have htype : ∀ c ∈ ("FName" : Text), PropertyDeclaration.isTypeChar c = true :=
      List.all_eq_true.mp (by decide)
    refine ⟨hname, htype, fun key value h => ?_⟩
    cases h
  unfold Entity.objectName? at h
  dsimp only at h
  split at h
  · cases h
  · split at h
    · cases h
      exact ⟨_, hnamed _ _, rfl⟩
    · cases h
      exact ⟨_, hnamed _ _, rfl⟩

end Property

/-- Every property of an entity is a spliceable one that was classified. -/
theorem Entity.exists_spliceable {table : MacroTable} {stem text : Text} {e : Entity} {p : Property}
    (h : ofText table stem text = .ok (some e)) (hp : p ∈ e.properties) :
    ∃ declared : Property, declared.Spliceable ∧ p = declared.classify table := by
  unfold ofText at h
  obtain ⟨found, hfound, h⟩ := Header.bind_eq_ok_iff.mp h
  split at h
  · cases h
  · next header =>
    split at h
    · cases h
      cases hp
    · next head hhead =>
      obtain ⟨entity, hentity, h⟩ := Header.bind_eq_ok_iff.mp h
      cases h
      obtain ⟨properties, hproperties, hentity⟩ := Header.bind_eq_ok_iff.mp hentity
      cases hentity
      rcases List.mem_append.mp hp with hp | hp
      · exact Property.exists_spliceable_of_objectName? (Option.mem_toList.mp hp)
      · obtain ⟨declared, hdeclared, rfl⟩ := List.mem_map.mp hp
        refine ⟨declared, ?_, rfl⟩
        have hok : (.ok declared : Except HeaderError Property) ∈
            header.properties.map Property.ofDeclaration := by
          rw [Header.mapM_eq_ok_iff.mp hproperties]
          exact List.mem_map_of_mem hdeclared
        obtain ⟨d, hd, hof⟩ := List.mem_map.mp hok
        obtain ⟨htype, hname⟩ := Header.chars_of_mem_properties hfound hhead hd
        exact Property.spliceable_of_declaration htype hname hof

/-- **Every comma of a type is one argument more.** Whatever header and macro table a property comes
from, its registration line is a call of its macro, and the macro reads from it the arguments that
it takes, one more where there is a tooltip, and one more for each comma of the type in the
call. -/
theorem Entity.arguments_of_propertyLine {macros stem text : Text} {e : Entity} {p : Property}
    (hentity : ofText (MacroTable.parse macros) stem text = .ok (some e))
    (hp : p ∈ e.properties) :
    ∃ args, MacroCall.read? (Artifact.propertyLine p) = some (p.registration.macroName, args) ∧
      args.length = Property.arity p.registration.macroName + (if p.tooltip = [] then 0 else 1) +
        p.typeOperand.count ',' := by
  obtain ⟨declared, hdeclared, rfl⟩ := exists_spliceable hentity hp
  exact hdeclared.read?_propertyLine fun _ he => MacroTable.worded_of_mem_parse he

/-- A map with a comma in its category and commas in its type, which its kinds stand in for. -/
theorem Entity.arguments_of_propertyLine_map :
    let text : Text := "UCLASS() class L : public P \x7b GENERATED_REFLECTION_BODY()
      UPROPERTY(Category=\"a, b\", Tooltip=\"c\") TMap<FName, TPair<int32, float>> M; \x7d;"
    ∃ e p, (ofText (MacroTable.parse []) "L" text = .ok (some e) ∧ p ∈ e.properties) ∧
      ∃ args, MacroCall.read? (Artifact.propertyLine p) = some ("ADD_PROPERTY_MAP".toList, args) ∧
        args.length = 6 := by
  intro text
  let p : Property := { Property.bare "M" "TMap<FName, TPair<int32, float>>" with
    category := "a, b"
    tooltip := "c"
    extra := Dict.ofList [(Property.keyTypeKey, "EPropertyType::FName"),
      (Property.valueTypeKey, "EPropertyType::ObjectPtr")]
    registration := .map }
  let e : Entity := { Entity.ofAttributes "L" "P" .class_ Dict.empty with properties := [p] }
  have hentity : ofText (MacroTable.parse []) "L" text = .ok (some e) := by decide +kernel
  have hp : p ∈ e.properties := List.mem_singleton.mpr rfl
  obtain ⟨args, hread, hlength⟩ := arguments_of_propertyLine hentity hp
  have hcount : Property.arity p.registration.macroName + (if p.tooltip = [] then 0 else 1) +
      p.typeOperand.count ',' = 6 := by decide
  exact ⟨e, p, ⟨hentity, hp⟩, args, hread, hlength.trans hcount⟩

/-- A template with two arguments is read by the macro as two arguments of its own. -/
theorem Entity.pair_divided :
    let text : Text := "UCLASS() class L : public P \x7b GENERATED_REFLECTION_BODY()
      UPROPERTY() TPair<int32, float> M; \x7d;"
    ∃ e p args, ofText (MacroTable.parse []) "L" text = .ok (some e) ∧ p ∈ e.properties ∧
      p.tooltip = [] ∧
      MacroCall.read? (Artifact.propertyLine p) = some ("ADD_PROPERTY".toList, args) ∧
      args.length = Property.arity "ADD_PROPERTY" + 1 := by
  intro text
  let p : Property := Property.bare "M" "TPair<int32, float>"
  let e : Entity := { Entity.ofAttributes "L" "P" .class_ Dict.empty with properties := [p] }
  refine ⟨e, p, ["TPair<int32", " float>", " M", " \"\"", " false"], ?_⟩
  decide +kernel

end Registrar
