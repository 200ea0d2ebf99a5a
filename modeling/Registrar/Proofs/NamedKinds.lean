import Registrar.Proofs.MacroDefinitions

/-!
# The kinds that a type names

The macro for a pointer is found by words: its kind, the kind behind a `U`, the kind before `Base`, and
the kind between the two. All of them hold the kind, so where one of them occurs the kind does, and the
kind alone decides (`MacroEntry.any_kept_iff`). Shader views have two words of their own, of which one is
their kind.

For a table that is read from a header, the macro is the first one in the order of the first definitions
whose kind, by its last definition, occurs in the type.
-/

namespace Registrar

namespace MacroEntry

variable {kind word : Text}

/-- The words for a kind that hold something more. -/
def decoratedWords (kind : Text) : List Text :=
  ['U' :: kind, 'U' :: kind ++ "Base", kind ++ "Base"]

/-- The kind of a macro occurs in a type, in any case, or for shader views their full name does. Kinds
for containers and script files are never looked for. -/
def KindOccurs (e : MacroEntry) (type : Text) : Prop :=
  e.kind ≠ "Array" ∧ e.kind ≠ "ScriptFile" ∧
    (e.kind.lower <:+: type.lower ∨
      e.kind = "SRV" ∧ ("shaderresourceview" : Text) <:+: type.lower)

/-- A word for a kind holds the kind, but for the full name of shader views. -/
theorem of_mem_patternsOf (h : word ∈ patternsOf kind) :
    kind ≠ "Array" ∧ kind ≠ "ScriptFile" ∧
      (kind <:+: word ∨ kind = "SRV" ∧ word = "ShaderResourceView") := by
  rw [patternsOf] at h
  split at h
  · cases h
  · next hsought =>
    obtain ⟨harray, hscript⟩ := not_or.mp hsought
    refine ⟨harray, hscript, ?_⟩
    split at h
    · next hview =>
      simp only [List.mem_cons, List.not_mem_nil, or_false] at h
      rcases h with rfl | rfl
      · exact .inr ⟨hview, rfl⟩
      · exact .inl (hview ▸ List.infix_rfl)
    · simp only [List.mem_cons, List.not_mem_nil, or_false] at h
      rcases h with rfl | rfl | rfl | rfl
      · exact .inl List.infix_rfl
      · exact .inl (List.suffix_cons 'U' kind).isInfix
      · exact .inl ⟨['U'], "Base", rfl⟩
      · exact .inl (List.prefix_append kind _).isInfix

theorem kind_mem_patternsOf (harray : kind ≠ "Array") (hscript : kind ≠ "ScriptFile") :
    kind ∈ patternsOf kind := by
  rw [patternsOf, if_neg (not_or.mpr ⟨harray, hscript⟩)]
  split
  · next hview =>
    rw [hview]
    exact List.mem_cons_of_mem _ List.mem_cons_self
  · exact List.mem_cons_self

theorem kind_notMem_decoratedWords (kind : Text) : kind ∉ decoratedWords kind := by
  intro hmem
  simp only [decoratedWords, List.mem_cons, List.not_mem_nil, or_false] at hmem
  have hbase : ("Base" : Text).length = 4 := rfl
  rcases hmem with heq | heq | heq
  all_goals
    have hlength := congrArg List.length heq
    simp only [List.length_cons, List.length_append, hbase] at hlength
    omega

/-- **The kind alone decides** whether a word of the macro occurs in a type, whichever of the decorated
words are looked for. -/
theorem any_kept_iff (e : MacroEntry) (type : Text) {keep : Text → Bool}
    (hkeep : ∀ word ∈ e.patterns, word ∉ decoratedWords e.kind → keep word = true) :
    ((e.patterns.filter keep).any fun word => word.lower.occursIn type.lower) = true ↔
      e.KindOccurs type := by
  rw [List.any_eq_true]
  constructor
  · rintro ⟨word, hkept, hoccurs⟩
    rw [Text.occursIn_iff] at hoccurs
    obtain ⟨harray, hscript, hword⟩ := of_mem_patternsOf (List.mem_filter.mp hkept).1
    refine ⟨harray, hscript, ?_⟩
    rcases hword with hholds | ⟨hview, rfl⟩
    · exact .inl ((hholds.map Char.toLower).trans hoccurs)
    · exact .inr ⟨hview, hoccurs⟩
  · rintro ⟨harray, hscript, hoccurs⟩
    have hfound : ∀ word ∈ e.patterns, word ∉ decoratedWords e.kind → word.lower <:+: type.lower →
        ∃ word ∈ e.patterns.filter keep, word.lower.occursIn type.lower = true :=
      fun word hword hbare hin =>
        ⟨word, List.mem_filter.mpr ⟨hword, hkeep word hword hbare⟩, Text.occursIn_iff.mpr hin⟩
    rcases hoccurs with hkind | ⟨hview, hname⟩
    · exact hfound e.kind (kind_mem_patternsOf harray hscript) (kind_notMem_decoratedWords e.kind) hkind
    · refine hfound "ShaderResourceView" ?_ ?_ hname
      · rw [patterns, hview]
        exact List.mem_cons_self
      · rw [hview]
        decide

theorem namedIn_iff (e : MacroEntry) (type : Text) : e.namedIn type = true ↔ e.KindOccurs type := by
  rw [← any_kept_iff e type (fun _ _ _ => rfl), List.filter_eq_self.mpr fun _ _ => rfl]
  rfl

end MacroEntry

namespace MacroTable

open MacroEntry

/-- **The first macro whose kind occurs in a pointer is the macro for it.** The table has the macros of a
header in the order of their first definitions, each with the kind of its last one. The macro for a
pointer is the first of them whose kind occurs in it, and there is none where no kind does. Whichever
decorated words are left out, the answer is the same. -/
theorem forType?_parse_by_kind (macros : Text) {type : Text} (hpointer : '*' ∈ type) :
    Collects (definitions macros) (parse macros).entries ∧
      (∀ e, (parse macros).forType? type = some e ↔ ∃ before after,
        (parse macros).entries = before ++ e :: after ∧ e.KindOccurs type ∧
          ∀ earlier ∈ before, ¬ earlier.KindOccurs type) ∧
      ((parse macros).forType? type = none ↔
        ∀ e ∈ (parse macros).entries, ¬ e.KindOccurs type) ∧
      ∀ keep : Text → Text → Bool,
        (∀ kind, ∀ word ∈ patternsOf kind, word ∉ decoratedWords kind → keep kind word = true) →
          (parse macros).forType? type = (parse macros).entries.find? fun e =>
            (e.patterns.filter (keep e.kind)).any fun word => word.lower.occursIn type.lower := by
  rw [forType?, if_pos hpointer]
  refine ⟨collects_parse macros, fun e => ?_, ?_, fun keep hkeep => ?_⟩
  · rw [List.find?_eq_some_iff_append, namedIn_iff]
    simp only [Bool.not_eq_true', ← Bool.not_eq_true, namedIn_iff]
    constructor
    · rintro ⟨hoccurs, before, after, heq, hbefore⟩
      exact ⟨before, after, heq, hoccurs, hbefore⟩
    · rintro ⟨before, after, heq, hoccurs, hbefore⟩
      exact ⟨hoccurs, before, after, heq, hbefore⟩
  · simp only [List.find?_eq_none, namedIn_iff]
  · refine congrArg (List.find? · _) (funext fun e => ?_)
    rw [Bool.eq_iff_iff, namedIn_iff, any_kept_iff e type (hkeep e.kind)]

/-- A list, and a macro that is defined before another one and once more behind it. -/
def shapeMacros : Text :=
  "#define ADD_LIST(T) \x7b Prop.Type = N::Array; \x7d\n" ++
    "#define ADD_SHAPE(T) \x7b Prop.Type = N::Mesh; \x7d\n" ++
    "#define ADD_SOUND(T) \x7b Prop.Type = N::Sound; \x7d\n" ++
    "#define ADD_SHAPE(T) \x7b Prop.Type = N::Shape; \x7d\n"

/-- A list and a sound are named too, but a list is not looked for and a sound is defined later. -/
theorem forType?_parse_by_kind_redefined :
    '*' ∈ ("UArraySoundSHAPEBase*" : Text) ∧
      (parse shapeMacros).forType? "UArraySoundSHAPEBase*" = some ⟨"ADD_SHAPE", "Shape"⟩ := by
  have hpointer : '*' ∈ ("UArraySoundSHAPEBase*" : Text) := by decide
  have hentries : (parse shapeMacros).entries =
      [⟨"ADD_LIST", "Array"⟩, ⟨"ADD_SHAPE", "Shape"⟩, ⟨"ADD_SOUND", "Sound"⟩] := by
    decide +kernel
  have hoccurs : KindOccurs ⟨"ADD_SHAPE", "Shape"⟩ "UArraySoundSHAPEBase*" :=
    ⟨by decide, by decide, .inl (Text.occursIn_iff.mp (by decide))⟩
  refine ⟨hpointer, ((forType?_parse_by_kind shapeMacros hpointer).2.1 _).mpr ?_⟩
  refine ⟨[⟨"ADD_LIST", "Array"⟩], [⟨"ADD_SOUND", "Sound"⟩], hentries, hoccurs, fun earlier hmem => ?_⟩
  rw [List.mem_singleton.mp hmem]
  exact fun hlist => hlist.1 rfl

end MacroTable

end Registrar
