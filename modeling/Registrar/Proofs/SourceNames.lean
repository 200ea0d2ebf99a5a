import Registrar.MacroTable
import Registrar.Proofs.EntityNames
import Registrar.Proofs.PropertyRecovery
import Registrar.Proofs.Readings

/-!
# What names and types are made of

The macros of a table have words for their names and kinds (`MacroTable.worded_of_mem_parse`), and so
have declared properties for their names. A declared type is made of the characters of types: its
normal form brings in blanks only (`TypeName.mem_or_eq_of_mem_normalize`), and the arguments of a
template are parts of it (`TypeName.mem_of_mem_templateArgs`).
-/

namespace Registrar

/-! ## Macro tables hold words -/

namespace Text

/-- A word that is read is not empty. -/
theorem ne_nil_of_takeWord? {t word rest : Text} (h : takeWord? t = some (word, rest)) :
    word ≠ [] := by
  unfold takeWord? at h
  split at h
  · cases h
  · obtain ⟨rfl, -⟩ := Prod.mk.inj (Option.some.inj h)
    exact List.cons_ne_nil _ _

end Text

namespace MacroTable

/-- The name and the kind of a macro are words. -/
structure Worded (e : MacroEntry) : Prop where
  name_ne_nil : e.name ≠ []
  name_word : ∀ c ∈ e.name, Text.isWord c = true
  kind_word : ∀ c ∈ e.kind, Text.isWord c = true

theorem isWord_of_findKind? {t kind rest : Text} (h : findKind? t = some (kind, rest)) :
    ∀ c ∈ kind, Text.isWord c = true := by
  induction t with
  | nil => cases h
  | cons c r ih =>
      rw [findKind?] at h
      split at h
      · next found hfound =>
        cases h
        simp only [takeKind?, Option.bind_eq_bind, Option.bind_eq_some_iff] at hfound
        obtain ⟨_, _, _, _, _, _, _, _, ⟨_, _⟩, hword, _, _, hpair⟩ := hfound
        cases hpair
        exact Text.isWord_of_takeWord? hword
      · split at h
        · cases h
        · exact ih h

theorem worded_of_takeDefinition? {t rest : Text} {e : MacroEntry}
    (h : takeDefinition? t = some (e, rest)) : Worded e := by
  simp only [takeDefinition?, Option.bind_eq_bind, Option.bind_eq_some_iff] at h
  obtain ⟨_, _, _, _, _, _, _, _, ⟨_, _⟩, hname, _, _, _, _, _, _, ⟨_, _⟩, hkind, hpair⟩ := h
  cases hpair
  exact ⟨Text.ne_nil_of_takeWord? hname, Text.isWord_of_takeWord? hname, isWord_of_findKind? hkind⟩

theorem eq_or_mem_of_mem_define {entries : List MacroEntry} {e new : MacroEntry}
    (h : e ∈ define entries new) : e = new ∨ e ∈ entries := by
  rw [define] at h
  split at h
  · obtain ⟨old, hold, rfl⟩ := List.mem_map.mp h
    split
    · exact Or.inl rfl
    · exact Or.inr hold
  · rcases List.mem_append.mp h with h | h
    · exact Or.inr h
    · exact Or.inl (List.mem_singleton.mp h)

theorem mem_of_mem_foldl_define {defined entries : List MacroEntry} {e : MacroEntry}
    (h : e ∈ defined.foldl define entries) : e ∈ defined ∨ e ∈ entries := by
  induction defined generalizing entries with
  | nil => exact Or.inr h
  | cons first others ih =>
      rcases ih h with h | h
      · exact Or.inl (List.mem_cons_of_mem _ h)
      · rcases eq_or_mem_of_mem_define h with rfl | h
        · exact Or.inl List.mem_cons_self
        · exact Or.inr h

/-- Every macro that a header defines has words for its name and its kind. -/
theorem worded_of_mem_parse {macros : Text} {e : MacroEntry} (h : e ∈ (parse macros).entries) :
    Worded e := by
  rcases mem_of_mem_foldl_define h with h | h
  · obtain ⟨source, rest, hread⟩ := Text.exists_of_mem_findAll h
    exact worded_of_takeDefinition? hread
  · cases h

theorem mem_of_forType? {table : MacroTable} {type : Text} {e : MacroEntry}
    (h : table.forType? type = some e) : e ∈ table.entries := by
  rw [forType?] at h
  split at h
  · exact List.mem_of_find?_eq_some h
  · cases h

end MacroTable

/-! ## Characters of types -/

namespace Text

theorem mem_of_mem_splitCommas {t piece : Text} {depth : Int} {c : Char}
    (h : piece ∈ splitCommas depth t) (hc : c ∈ piece) : c ∈ t := by
  induction t generalizing depth piece with
  | nil =>
      obtain rfl := List.mem_singleton.mp h
      exact hc
  | cons d r ih =>
      rw [splitCommas] at h
      split at h
      · rcases List.mem_cons.mp h with rfl | h
        · cases hc
        · exact List.mem_cons_of_mem _ (ih h hc)
      · split at h
        · obtain rfl := List.mem_singleton.mp h
          obtain rfl := List.mem_singleton.mp hc
          exact List.mem_cons_self
        · next first others heq =>
          rcases List.mem_cons.mp h with rfl | h
          · rcases List.mem_cons.mp hc with rfl | hc
            · exact List.mem_cons_self
            · exact List.mem_cons_of_mem _ (ih (heq ▸ List.mem_cons_self) hc)
          · exact List.mem_cons_of_mem _ (ih (heq ▸ List.mem_cons_of_mem _ h) hc)

theorem mem_of_mem_trim {t : Text} {c : Char} (h : c ∈ t.trim) : c ∈ t := by
  have hstart := (List.dropWhile_sublist isBlank).mem (List.mem_reverse.mp h)
  exact (List.dropWhile_sublist isBlank).mem (List.mem_reverse.mp hstart)

theorem mem_of_mem_joinWith {separator : Text} {pieces : List Text} {c : Char}
    (h : c ∈ joinWith separator pieces) : c ∈ separator ∨ ∃ piece ∈ pieces, c ∈ piece := by
  cases pieces with
  | nil => cases h
  | cons first others =>
      rw [joinWith_cons] at h
      rcases List.mem_append.mp h with h | h
      · exact Or.inr ⟨first, List.mem_cons_self, h⟩
      · obtain ⟨piece, hpiece, h⟩ := List.mem_flatMap.mp h
        rcases List.mem_append.mp h with h | h
        · exact Or.inl h
        · exact Or.inr ⟨piece, List.mem_cons_of_mem _ hpiece, h⟩

end Text

namespace TypeName

theorem mem_of_mem_attach {mark c : Char} {t : Text} (h : c ∈ attach mark t) : c ∈ t := by
  induction t with
  | nil => exact h
  | cons d r ih =>
      rw [attach] at h
      split at h
      · exact List.mem_cons_of_mem _ (ih h)
      · rcases List.mem_cons.mp h with rfl | h
        · exact List.mem_cons_self
        · exact List.mem_cons_of_mem _ (ih h)

/-- The normal form of a type name brings in no character but the blank. -/
theorem mem_or_eq_of_mem_normalize {t : Text} {c : Char} (h : c ∈ normalize t) :
    c ∈ t ∨ c = ' ' := by
  obtain h | ⟨word, hword, hc⟩ := Text.mem_of_mem_joinWith (mem_of_mem_attach (mem_of_mem_attach h))
  · exact Or.inr (by simpa using h)
  · exact Or.inl (Text.exists_mem_words_iff.mp ⟨word, hword, hc⟩).1

/-- The arguments of a template are made of the characters of the type. -/
theorem mem_of_mem_templateArgs {t arg : Text} {c : Char} (h : arg ∈ templateArgs t)
    (hc : c ∈ arg) : c ∈ t := by
  obtain ⟨piece, hpiece, rfl⟩ := List.mem_map.mp (List.mem_filter.mp h).1
  have hinside := Text.mem_of_mem_splitCommas hpiece (Text.mem_of_mem_trim hc)
  rw [insideAngles] at hinside
  have hback := List.mem_reverse.mp
    ((List.dropWhile_sublist _).mem (List.mem_of_mem_drop (List.mem_reverse.mp hinside)))
  exact (List.dropWhile_sublist _).mem (List.mem_of_mem_drop hback)

end TypeName

/-! ## Declared properties -/

namespace PropertyDeclaration

theorem chars_of_read? {t type name : Text} (h : read? t = some (type, name)) :
    (∀ c ∈ type, isTypeChar c = true) ∧ ∀ c ∈ name, Text.isWord c = true := by
  unfold read? at h
  split at h
  next before last hsplit =>
  split at h
  · cases h
    have hbefore : before = ((Text.trimEnd (t.takeWhile isTypeChar)).reverse.dropWhile
        Text.isWord).reverse := (congrArg Prod.fst hsplit).symm
    have hlast : name = ((Text.trimEnd (t.takeWhile isTypeChar)).reverse.takeWhile
        Text.isWord).reverse := (congrArg Prod.snd hsplit).symm
    refine ⟨fun c hc => ?_, fun c hc => ?_⟩
    · rcases TypeName.mem_or_eq_of_mem_normalize hc with hc | rfl
      · rw [hbefore, List.mem_reverse] at hc
        have hhead := List.mem_reverse.mp ((List.dropWhile_sublist _).mem hc)
        have htake := List.mem_reverse.mp
          ((List.dropWhile_sublist _).mem (List.mem_reverse.mp hhead))
        exact List.all_eq_true.mp List.all_takeWhile c htake
      · decide
    · rw [hlast, List.mem_reverse] at hc
      exact List.all_eq_true.mp List.all_takeWhile c hc
  · cases h

end PropertyDeclaration

theorem Header.chars_of_mem_properties {t : Text} {header : Header} {head : ClassHead}
    {d : PropertyDeclaration} (h : read t = .ok (some header)) (hhead : header.head = some head)
    (hd : d ∈ header.properties) :
    (∀ c ∈ d.type, PropertyDeclaration.isTypeChar c = true) ∧
      ∀ c ∈ d.name, Text.isWord c = true := by
  rw [properties_eq h hhead] at hd
  obtain ⟨site, -, hdeclared⟩ := List.mem_filterMap.mp hd
  obtain ⟨⟨arguments, rest⟩, -, hproperty⟩ := Option.bind_eq_some_iff.mp hdeclared
  obtain ⟨⟨type, name⟩, hread, rfl⟩ := Option.map_eq_some_iff.mp hproperty
  exact PropertyDeclaration.chars_of_read? hread

end Registrar
