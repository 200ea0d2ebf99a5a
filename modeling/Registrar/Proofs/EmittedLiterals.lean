import Registrar.Proofs.BareValues
import Registrar.Proofs.RegistrationArity
import Registrar.Proofs.StringLiterals

/-!
# What emitted literals mean

A string literal denotes the text that its body stands for when its escapes are undone
(`StringLiteral.meaning?`). The literals of a registration line denote the category, the script extension
and the tooltip of the property, whatever characters these have (`bodies_propertyLine`,
`meaning?_escape`).

The category and the tooltip of a property are what stands between the quotes in its marker: no escape is
undone on the way. So the emitted literal denotes the body of the literal in the header, and that is what
the literal in the header denotes exactly when no backslash stands in it.
-/

namespace Registrar.StringLiteral

open Text

/-! ## Meanings -/

/-- The characters that stand behind a backslash for another character, or for themselves. -/
def escapes : List (Char × Char) :=
  [('n', '\n'), ('t', '\t'), ('r', '\r'), ('\\', '\\'), ('"', '"')]

/-- The text that the body of a string literal denotes. -/
def meaning? : Text → Option Text
  | [] => some []
  | c :: r =>
    if c = '\\' then
      match r with
      | [] => none
      | e :: r => (escapes.lookup e).bind fun denoted => (meaning? r).map (denoted :: ·)
    else if c = '"' ∨ c = '\n' then none
    else (meaning? r).map (c :: ·)

theorem meaning?_eq_unescape? (t : Text) : meaning? t = unescape? escapes t := by
  fun_induction meaning? t with
  | case1 => rfl
  | case2 => rfl
  | case3 e r ih =>
      rw [unescape?.eq_def, ih]
      rfl
  | case4 c r hbackslash hmark =>
      rw [unescape?.eq_def]
      simp only [if_neg hbackslash, if_pos hmark]
  | case5 c r hbackslash hmark ih =>
      rw [unescape?.eq_def, ih]
      simp only [if_neg hbackslash, if_neg hmark]

/-- **An escaped text denotes the text.** -/
theorem meaning?_escape (t : Text) : meaning? (Artifact.escape t) = some t := by
  rw [meaning?_eq_unescape?, unescape?_escape (forall_mem_writtenEscapes rfl rfl rfl)]

/-- What a body denotes is no longer than the body, and shorter where the body has an escape. Without
one it is the body. -/
theorem of_meaning? {s v : Text} (h : meaning? s = some v) :
    v.length ≤ s.length ∧ ('\\' ∈ s → v.length < s.length) ∧ ('\\' ∉ s → v = s) := by
  fun_induction meaning? s generalizing v with
  | case1 =>
      cases h
      simp
  | case2 => cases h
  | case3 e r ih =>
      obtain ⟨denoted, -, h⟩ := Option.bind_eq_some_iff.mp h
      obtain ⟨rest, hrest, rfl⟩ := Option.map_eq_some_iff.mp h
      have hlength := (ih hrest).1
      simp only [List.length_cons]
      exact ⟨by omega, fun _ => by omega, fun hnot => absurd List.mem_cons_self hnot⟩
  | case4 => cases h
  | case5 c r hbackslash _ ih =>
      obtain ⟨rest, hrest, rfl⟩ := Option.map_eq_some_iff.mp h
      obtain ⟨hle, hlt, heq⟩ := ih hrest
      rw [List.mem_cons, or_iff_right (Ne.symm hbackslash), List.length_cons, List.length_cons]
      exact ⟨by omega, fun hmem => by have := hlt hmem; omega, fun hnot => by rw [heq hnot]⟩

theorem meaning?_self_iff {s v : Text} (h : meaning? s = some v) : s = v ↔ '\\' ∉ s := by
  obtain ⟨-, hlt, heq⟩ := of_meaning? h
  constructor
  · rintro rfl hmem
    exact Nat.lt_irrefl _ (hlt hmem)
  · exact fun hnot => (heq hnot).symm

/-! ## The literals of a call -/

/-- The string literals of a part of a text, whatever follows it. -/
def Shows (part : Text) (found : List Text) : Prop :=
  ∀ rest, bodies (part ++ rest) = found ++ bodies rest

theorem shows_of_notMem {part : Text} (h : '"' ∉ part) : Shows part [] :=
  fun rest => bodies_append_of_notMem h rest

theorem shows_quote (value : Text) : Shows (Artifact.quote value) [Artifact.escape value] :=
  fun rest => bodies_quote_append value rest

theorem Shows.append {x y : Text} {found more : List Text} (hx : Shows x found) (hy : Shows y more) :
    Shows (x ++ y) (found ++ more) := by
  intro rest
  rw [List.append_assoc, hx, hy, List.append_assoc]

/-- The string literals of operands that are written one after the other. -/
inductive ShowsAll : List Text → List Text → Prop
  | nil : ShowsAll [] []
  | cons {x : Text} {xs found more : List Text} (hx : Shows x found) (hxs : ShowsAll xs more) :
      ShowsAll (x :: xs) (found ++ more)

theorem ShowsAll.append {xs ys found more : List Text} (hxs : ShowsAll xs found)
    (hys : ShowsAll ys more) : ShowsAll (xs ++ ys) (found ++ more) := by
  induction hxs with
  | nil => exact hys
  | cons hx _ ih =>
      rw [List.append_assoc]
      exact .cons hx ih

theorem ShowsAll.joinWith {xs found : List Text} (h : ShowsAll xs found) :
    Shows (Text.joinWith ", " xs) found := by
  induction h with
  | nil => exact shows_of_notMem List.not_mem_nil
  | @cons x xs found more hx hxs ih =>
      cases xs with
      | nil =>
          cases hxs
          rwa [Text.joinWith, List.intercalate_singleton, List.append_nil]
      | cons y ys =>
          have hcomma : Shows ", " [] := shows_of_notMem (by decide)
          have hall := (hx.append hcomma).append ih
          rw [List.append_nil] at hall
          rwa [Text.joinWith, List.intercalate_cons_cons, ← Text.joinWith]

/-- The literals of a call are those of its operands. -/
theorem bodies_call {name : Text} (hname : '"' ∉ name) {xs found : List Text} (h : ShowsAll xs found) :
    bodies (Artifact.call name xs) = found := by
  have hopen : Shows (name ++ "(") [] := by
    refine shows_of_notMem ?_
    rw [List.mem_append, not_or]
    exact ⟨hname, by decide⟩
  have hcall := (hopen.append h.joinWith).append (shows_of_notMem (by decide : '"' ∉ (")" : Text)))
  have hbodies := hcall []
  have hnone : bodies [] = [] := by rw [bodies, findAll]
  rw [List.append_nil, List.append_nil, List.nil_append, hnone, List.append_nil] at hbodies
  exact hbodies

end Registrar.StringLiteral

namespace Registrar.Property

open StringLiteral

/-- The texts that the registration of a property shows: its category, a script extension, and a tooltip
where there is one. -/
def shown (p : Property) : List Text :=
  p.category :: (if p.registration = .script then [p.scriptExtension] else []) ++
    (if p.tooltip = [] then [] else [p.tooltip])

theorem shows_of_isInert {x : Text} (h : ∀ c ∈ x, IsInert c) : Shows x [] :=
  shows_of_notMem fun hmem => absurd (h '"' hmem) (by decide)

theorem shows_of_isTypeChar {x : Text} (h : ∀ c ∈ x, PropertyDeclaration.isTypeChar c = true) :
    Shows x [] :=
  shows_of_notMem fun hmem => absurd (h '"' hmem) (by decide)

/-- Of the operands before the flag, only the category and a script extension are literals. -/
theorem Spliceable.showsAll_leading {p : Property} (h : Spliceable p) :
    ShowsAll (Artifact.leadingArguments p) ((p.category ::
      (if p.registration = .script then [p.scriptExtension] else [])).map Artifact.escape) := by
  have hname : Shows p.name [] := shows_of_isInert fun c hc => isInert_of_isWord (h.name c hc)
  have htype : Shows p.declaredType [] := shows_of_isTypeChar h.type
  have hlast : ShowsAll [p.name, Artifact.quote p.category] [Artifact.escape p.category] :=
    .cons hname (.cons (shows_quote _) .nil)
  have hnumber : ∀ n, Shows (Artifact.number n ++ "f") [] := by
    intro n
    apply shows_of_isInert
    exact List.forall_mem_append.mpr ⟨isInert_number n, Text.forall_mem_of_all (by decide)⟩
  cases hform : p.registration with
  | ranged =>
      simp only [Artifact.leadingArguments, hform]
      have hrange : ∀ low high,
          ShowsAll [Artifact.number low ++ "f", Artifact.number high ++ "f"] [] :=
        fun _ _ => .cons (hnumber _) (.cons (hnumber _) .nil)
      exact .cons htype (.cons hname (.cons (shows_quote _) (hrange _ _)))
  | structArray =>
      simp only [Artifact.leadingArguments, hform]
      exact .cons (shows_of_isTypeChar h.struct_getD) hlast
  | array =>
      simp only [Artifact.leadingArguments, hform]
      refine .cons (shows_of_isInert ?_) hlast
      exact h.kind_getD (by decide) (Text.forall_mem_of_all (by decide))
  | map =>
      simp only [Artifact.leadingArguments, hform]
      refine .cons (shows_of_isInert ?_) (.cons (shows_of_isInert ?_) hlast)
      · exact h.kind_getD (by decide) (Text.forall_mem_of_all (by decide))
      · exact h.kind_getD (by decide) (Text.forall_mem_of_all (by decide))
  | script =>
      simp only [Artifact.leadingArguments, hform]
      exact .cons htype (.cons hname (.cons (shows_quote _) (.cons (shows_quote _) .nil)))
  | _ =>
      simp only [Artifact.leadingArguments, hform]
      exact .cons htype hlast

/-- **The literals of a registration line are for the texts that it shows**, each escaped. -/
theorem Spliceable.bodies_propertyLine {p : Property} (h : Spliceable p)
    (hcallable : Callable p.registration) :
    bodies (Artifact.propertyLine p) = p.shown.map Artifact.escape := by
  have hname : '"' ∉ p.registration.macroName :=
    fun hmem => absurd (hcallable.name_word '"' hmem) (by decide)
  have hflag : Shows (if p.isEditable then "true" else "false") [] := by
    split <;> exact shows_of_notMem (by decide)
  have htooltip : ShowsAll (if p.tooltip = [] then [] else [Artifact.quote p.tooltip])
      ((if p.tooltip = [] then [] else [p.tooltip]).map Artifact.escape) := by
    split
    · exact .nil
    · exact .cons (shows_quote _) .nil
  have hall := (h.showsAll_leading.append (.cons hflag .nil)).append htooltip
  rw [List.append_nil, List.append_nil, ← List.map_append] at hall
  exact bodies_call hname hall

end Registrar.Property

namespace Registrar.Property

open StringLiteral

/-! ## Texts that a marker gives -/

/-- The texts of a marker that a registration line shows. -/
inductive ShownText
  | category
  | tooltip
deriving DecidableEq

namespace ShownText

/-- The key that gives the text. -/
def key : ShownText → Text
  | category => "Category"
  | tooltip => "Tooltip"

/-- The literal of a property's registration line that shows the text: for the category the first one, and
for the tooltip, unless it is empty, the last. -/
def literal? (which : ShownText) (p : Property) : Option Text :=
  match which with
  | category => (bodies (Artifact.propertyLine p)).head?
  | tooltip => if p.tooltip = [] then none else (bodies (Artifact.propertyLine p)).getLast?

/-- The text of a property. -/
def ofProperty (which : ShownText) (p : Property) : Text :=
  match which with
  | category => p.category
  | tooltip => p.tooltip

end ShownText

theorem ofProperty_ofDeclaration {d : PropertyDeclaration} {p : Property} (h : ofDeclaration d = .ok p)
    (which : ShownText) :
    which.ofProperty p = (Attributes.parse d.arguments).getD which.key [] := by
  unfold ofDeclaration at h
  dsimp only at h
  split at h
  · cases h
    cases which <;> rfl
  · split at h
    · cases h
      cases which <;> rfl
    · cases h

theorem ofProperty_classify (which : ShownText) (table : MacroTable) (p : Property) :
    which.ofProperty (p.classify table) = which.ofProperty p := by
  cases which <;> rfl

/-- The text is shown by an escaped literal, unless it is an empty tooltip. -/
theorem Spliceable.literal?_eq {p : Property} (h : Spliceable p) (hcallable : Callable p.registration)
    (which : ShownText) :
    which.literal? p = if which = .tooltip ∧ p.tooltip = [] then none
      else some (Artifact.escape (which.ofProperty p)) := by
  have hbodies := h.bodies_propertyLine hcallable
  cases which with
  | category =>
      rw [ShownText.literal?, hbodies, if_neg (by simp)]
      rfl
  | tooltip =>
      rw [ShownText.literal?, hbodies]
      by_cases hempty : p.tooltip = []
      · rw [if_pos hempty, if_pos ⟨rfl, hempty⟩]
      · rw [if_neg hempty, if_neg fun hnone => hempty hnone.2, shown, if_neg hempty,
          List.map_append, List.map_singleton, List.getLast?_concat]
        rfl

/-- **An emitted literal denotes what stands between the quotes of the marker.** That is what the literal
of the marker denotes exactly when no backslash stands in it. There is a literal for every category, and
for every tooltip that is not empty. -/
theorem literal?_denotes (macros : Text) (args : List Attributes.Argument) (which : ShownText)
    {text s v : Text} {header : Header} {head : ClassHead} {d : PropertyDeclaration} {p : Property}
    (hread : Header.read text = .ok (some header)) (hhead : header.head = some head)
    (hd : d ∈ header.properties) (hargs : d.arguments = Attributes.argumentText args)
    (hp : ofDeclaration d = .ok p)
    (hs : Dict.lastValue? (args.filterMap Attributes.Argument.pair?) which.key = some s)
    (hv : meaning? s = some v) :
    ((which.literal? (p.classify (.parse macros))).isSome ↔ which = .category ∨ s ≠ []) ∧
      ∀ body, which.literal? (p.classify (.parse macros)) = some body →
        meaning? body = some s ∧ (meaning? body = some v ↔ '\\' ∉ s) := by
  obtain ⟨htype, hname⟩ := Header.chars_of_mem_properties hread hhead hd
  have htable : ∀ e ∈ (MacroTable.parse macros).entries, MacroTable.Worded e :=
    fun _ he => MacroTable.worded_of_mem_parse he
  have hliteral := ((spliceable_of_declaration htype hname hp).classify htable).literal?_eq
    (callable_classify htable p) which
  have hshown : which.ofProperty (p.classify (.parse macros)) = s := by
    rw [ofProperty_classify, ofProperty_ofDeclaration hp, hargs,
      Attributes.getD_parse_argumentText hs]
  rw [hshown] at hliteral
  rw [hliteral]
  split
  · next hnone =>
    obtain ⟨rfl, hempty⟩ := hnone
    have hnil : s = [] := hshown.symm.trans hempty
    refine ⟨?_, fun body hbody => by cases hbody⟩
    simp [hnil]
  · next hsome =>
    constructor
    · refine iff_of_true rfl ?_
      cases which with
      | category => exact .inl rfl
      | tooltip => exact .inr fun hnil => hsome ⟨rfl, hshown.trans hnil⟩
    · rintro body ⟨⟩
      refine ⟨meaning?_escape s, ?_⟩
      rw [meaning?_escape, Option.some_inj]
      exact meaning?_self_iff hv

/-- A priority without quotes, and a tooltip behind it. -/
def tooltipArguments : List Attributes.Argument :=
  [.bare [] "Priority" [] [] "3" Text.isBlank_of_mem_nil
      ⟨List.all_eq_true.mp (by decide), 'P', rfl, rfl⟩ Text.isBlank_of_mem_nil Text.isBlank_of_mem_nil
      (by decide) (List.all_eq_true.mp (by decide)),
    .item ⟨" ", .pair "Tooltip" [] [⟨[], "c, d", Text.isBlank_of_mem_nil, by decide⟩]
      ⟨List.all_eq_true.mp (by decide), 'T', rfl, rfl⟩ Text.isBlank_of_mem_nil (List.cons_ne_nil _ _),
      Text.isBlank_of_mem_space⟩]

theorem literal?_denotes_script :
    let text : Text := "UCLASS() class L : public P \x7b GENERATED_REFLECTION_BODY()
      UPROPERTY(Priority=3, Tooltip=\"c, d\") FString LuaFile; \x7d;"
    ∃ header d p, Header.read text = .ok (some header) ∧ d ∈ header.properties ∧
      ofDeclaration d = .ok p ∧ ∃ body, ShownText.tooltip.literal? (p.classify (.parse [])) = some body ∧
        meaning? body = some "c, d".toList := by
  intro text
  let d : PropertyDeclaration := ⟨"Priority=3, Tooltip=\"c, d\"", "FString", "LuaFile"⟩
  let header : Header := ⟨some ⟨.class_, "L", "P", []⟩, [d], [], []⟩
  let p : Property := { bare "LuaFile" "FString" with tooltip := "c, d" }
  have hread : Header.read text = .ok (some header) := by decide +kernel
  have hd : d ∈ header.properties := List.mem_singleton.mpr rfl
  have hp : ofDeclaration d = .ok p := by decide +kernel
  obtain ⟨hsome, hdenotes⟩ := literal?_denotes [] tooltipArguments .tooltip (s := "c, d") (v := "c, d")
    hread rfl hd (by decide) hp (by decide) (by decide)
  obtain ⟨body, hbody⟩ := Option.isSome_iff_exists.mp (hsome.mpr (.inr (by decide)))
  exact ⟨header, d, p, hread, hd, hp, body, hbody, (hdenotes body hbody).1⟩

/-- The line break of a tooltip becomes a backslash and a letter. -/
theorem escape_shown_as_written :
    let text : Text := "UCLASS() class L : public P \x7b GENERATED_REFLECTION_BODY()
      UPROPERTY(Tooltip=\"a\\nb\") int32 X; \x7d;"
    ∃ e p body, Entity.ofText (.parse []) "L" text = .ok (some e) ∧ p ∈ e.properties ∧
      ShownText.tooltip.literal? p = some body ∧ meaning? "a\\nb" = some "a\nb".toList ∧
      meaning? body = some "a\\nb".toList := by
  intro text
  let p : Property := { bare "X" "int32" with tooltip := "a\\nb" }
  let e : Entity := { Entity.ofAttributes "L" "P" .class_ Dict.empty with properties := [p] }
  refine ⟨e, p, "a\\\\nb", ?_⟩
  decide +kernel

end Registrar.Property
