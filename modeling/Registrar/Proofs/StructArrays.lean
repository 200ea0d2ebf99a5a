import Registrar.Proofs.SourceNames
import Registrar.Proofs.TypeTrees

/-!
# Arrays of structures

Two tables say what the element of an array is. The kind that is recorded comes from the names of value
types in any case, and from the form of a structure's name for other types. The form of the array comes
from the form of the name alone, with the built-in value types left out as the engine spells them.

So the two agree on every name but one sort: that of a value type in another spelling, with an `F` and
another capital in front (`IsRespelled`), such as `FLOAT` or `FVector2d`. Such an array is registered as
one of structures, and the kind of its elements is recorded as that of the value type.
-/

namespace Registrar

variable {type : Text}

/-- The type is called like a value type, when case is left aside. -/
def IsValueName (type : Text) : Prop :=
  ∃ entry ∈ ElementKind.values, entry.1 = type.trim.lower

instance (type : Text) : Decidable (IsValueName type) :=
  inferInstanceAs (Decidable (∃ entry ∈ ElementKind.values, entry.1 = type.trim.lower))

/-- The name has an `F` and another capital in front, as those of structures have. -/
def HasStructFront (type : Text) : Prop :=
  ∃ c rest, type.trim = 'F' :: c :: rest ∧ 'A' ≤ c ∧ c ≤ 'Z'

/-- A value type's name in another spelling, which has the form of a structure's name. -/
structure IsRespelled (type : Text) : Prop where
  value : IsValueName type
  front : HasStructFront type
  unlisted : type.trim ∉ builtinValueTypes

theorem isStructName_iff :
    isStructName type = true ↔
      '*' ∉ type.trim ∧ '<' ∉ type.trim ∧ HasStructFront type ∧ type.trim ∉ builtinValueTypes := by
  unfold isStructName HasStructFront
  generalize type.trim = name
  simp only [Bool.and_eq_true, decide_eq_true_eq, Bool.not_eq_true', and_assoc,
    List.contains_eq_mem, decide_eq_false_iff_not]
  refine and_congr_right fun _ => and_congr_right fun _ => and_congr_left fun _ => ?_
  split
  · simp
  · next hother =>
    refine iff_of_false Bool.false_ne_true ?_
    rintro ⟨c, rest, hname, -⟩
    exact hother c rest hname

theorem isStructName_trim (type : Text) : isStructName type.trim = isStructName type := by
  rw [isStructName, isStructName, Text.trim_trim]

/-- A value type is no template. -/
theorem IsValueName.angle_notMem (h : IsValueName type) : '<' ∉ type.trim := by
  have hnames : ∀ entry ∈ ElementKind.values, '<' ∉ entry.1 := by decide
  obtain ⟨entry, hentry, hname⟩ := h
  intro hmem
  have hlower : '<' ∈ type.trim.lower := List.mem_map.mpr ⟨'<', hmem, by decide⟩
  exact hnames entry hentry (hname ▸ hlower)

/-- The kind of a value type comes from the table of value types. -/
theorem IsValueName.exists_kind (h : IsValueName type) (table : MacroTable) :
    ∃ entry ∈ ElementKind.values, entry.1 = type.trim.lower ∧
      ElementKind.ofType table type = entry.2 := by
  obtain ⟨entry, hentry, hname⟩ := h
  cases hfind : ElementKind.values.find? fun entry => entry.1 = type.trim.lower with
  | none => exact absurd (decide_eq_true hname) (List.find?_eq_none.mp hfind entry hentry)
  | some found =>
      refine ⟨found, List.mem_of_find?_eq_some hfind, ?_, ?_⟩
      · simpa using List.find?_some hfind
      · simp only [ElementKind.ofType, hfind]

/-- Another type without a star has the kind of structures when it is named like one. -/
theorem ofType_of_not_isValueName (h : ¬ IsValueName type) (hstar : '*' ∉ type)
    (table : MacroTable) :
    ElementKind.ofType table type = if isStructName type then .struct_ else .objectPtr := by
  have hfind : (ElementKind.values.find? fun entry => entry.1 = type.trim.lower) = none :=
    List.find?_eq_none.mpr fun entry hentry hname => h ⟨entry, hentry, of_decide_eq_true hname⟩
  simp only [ElementKind.ofType, hfind, if_neg (mt Text.mem_of_mem_trim hstar), isStructName_trim]

/-- The value types that are named like structures are those in another spelling. -/
theorem isRespelled_iff (hstar : '*' ∉ type) :
    IsRespelled type ↔ IsValueName type ∧ isStructName type = true := by
  rw [isStructName_iff]
  constructor
  · intro h
    exact ⟨h.value, mt Text.mem_of_mem_trim hstar, h.value.angle_notMem, h.front, h.unlisted⟩
  · rintro ⟨hvalue, -, -, hfront, hunlisted⟩
    exact ⟨hvalue, hfront, hunlisted⟩

theorem tag_ne_struct_of_mem_values :
    ∀ entry ∈ ElementKind.values, entry.2.tag ≠ ElementKind.struct_.tag := by
  decide

/-- **The two tables agree but for respelled value types.** Elsewhere a type is recorded as a structure
when it is named like one. -/
theorem tag_ofType_eq_struct_iff (hstar : '*' ∉ type) (table : MacroTable) :
    (ElementKind.ofType table type).tag = ElementKind.struct_.tag ↔
      isStructName type = true ∧ ¬ IsRespelled type := by
  by_cases hvalue : IsValueName type
  · obtain ⟨entry, hentry, -, hkind⟩ := hvalue.exists_kind table
    rw [hkind, isRespelled_iff hstar]
    exact iff_of_false (tag_ne_struct_of_mem_values entry hentry) fun h => h.2 ⟨hvalue, h.1⟩
  · have hother : ¬ IsRespelled type := fun h => hvalue h.value
    have hobject : ElementKind.objectPtr.tag ≠ ElementKind.struct_.tag := by decide
    rw [ofType_of_not_isValueName hvalue hstar, and_iff_left hother]
    cases isStructName type with
    | true => exact iff_of_true rfl rfl
    | false => exact iff_of_false hobject Bool.false_ne_true

namespace Property

/-- **Arrays of structures are those whose elements have the kind of structures**, whatever the table of
macros, and a value type makes a plain array. The exception are value types in another spelling: their
arrays are registered as arrays of structures, and the kind of the value type is recorded. -/
theorem structArray_iff_struct_tag (table : MacroTable) (p : Property) (element : Text)
    (more : List Text) (harray : TypeName.IsOutermost p.declaredType "tarray")
    (hargs : TypeName.templateArgs p.declaredType = element :: more) (hstar : '*' ∉ element) :
    (¬ IsRespelled element →
      ((p.classify table).registration = .structArray ↔
        (p.classify table).extra.get? innerTypeKey = some ElementKind.struct_.tag) ∧
      (IsValueName element → (p.classify table).registration = .array)) ∧
    (IsRespelled element →
      (p.classify table).registration = .structArray ∧
      ∃ entry ∈ ElementKind.values, entry.1 = element.trim.lower ∧
        (p.classify table).extra.get? innerTypeKey = some entry.2.tag ∧
        entry.2.tag ≠ ElementKind.struct_.tag) := by
  obtain ⟨head, hhead, hlower⟩ := harray
  have htemplate : Template.ofType? p.declaredType = some .array :=
    Template.ofType?_of_templateHead? hhead hlower
  obtain ⟨hform, hinner⟩ : (p.classify table).registration = _ ∧ _ :=
    classify_array htemplate hargs
  rw [hform, hinner, Option.some.injEq, tag_ofType_eq_struct_iff hstar]
  constructor
  · intro hrespelled
    rw [and_iff_left hrespelled]
    cases hstruct : isStructName element with
    | true =>
        refine ⟨iff_of_true rfl rfl, fun hvalue => ?_⟩
        exact absurd ((isRespelled_iff hstar).mpr ⟨hvalue, hstruct⟩) hrespelled
    | false => exact ⟨iff_of_false Registration.noConfusion Bool.false_ne_true, fun _ => rfl⟩
  · intro hrespelled
    obtain ⟨hvalue, hstruct⟩ := (isRespelled_iff hstar).mp hrespelled
    obtain ⟨entry, hentry, hname, hkind⟩ := hvalue.exists_kind table
    rw [if_pos hstruct, hkind]
    exact ⟨rfl, entry, hentry, hname, rfl, tag_ne_struct_of_mem_values entry hentry⟩

/-- An array of structures. -/
def sockets : Property := bare "Sockets" "TArray<FBoneSocket>"

/-- An array of a value type that has a small letter in the place of a capital. -/
def points : Property := bare "Points" "TArray<FVector2d, FHeap*>"

theorem structArray_iff_struct_tag_points :
    ¬ IsRespelled "FBoneSocket" ∧ (sockets.classify rangeTable).registration = .structArray ∧
      (sockets.classify rangeTable).extra.get? innerTypeKey = some ElementKind.struct_.tag ∧
      IsRespelled "FVector2d" ∧ (points.classify rangeTable).registration = .structArray ∧
      (points.classify rangeTable).extra.get? innerTypeKey ≠ some ElementKind.struct_.tag := by
  have hsocket : ¬ IsRespelled "FBoneSocket" := fun h => absurd h.value (by decide)
  have hpoint : IsRespelled "FVector2d" :=
    ⟨by decide, ⟨'V', "ector2d".toList, by decide⟩, by decide⟩
  have hform : (sockets.classify rangeTable).registration = .structArray := by decide +kernel
  have hsockets := structArray_iff_struct_tag rangeTable sockets "FBoneSocket" []
    ⟨"TArray".toList, by decide, by decide⟩ (by decide) (by decide)
  have hpoints := structArray_iff_struct_tag rangeTable points "FVector2d" ["FHeap*".toList]
    ⟨"TArray".toList, by decide, by decide⟩ (by decide) (by decide)
  obtain ⟨hpointForm, entry, -, -, hinner, hne⟩ := hpoints.2 hpoint
  refine ⟨hsocket, hform, (hsockets.1 hsocket).1.mp hform, hpoint, hpointForm, ?_⟩
  rw [hinner]
  exact fun h => hne (Option.some.inj h)

/-- An array of numbers is registered as one of structures, and its elements are recorded as numbers. -/
theorem structArray_of_numbers :
    ((bare "Weights" "TArray<FLOAT>").classify .empty).registration = .structArray ∧
      ((bare "Weights" "TArray<FLOAT>").classify .empty).extra.get? innerTypeKey =
        some ElementKind.float.tag := by
  decide +kernel

end Property

end Registrar
