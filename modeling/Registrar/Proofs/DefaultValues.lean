import Registrar.Proofs.NormalTypes
import Registrar.Proofs.ParameterLists
import Registrar.Proofs.SourceNames
import Registrar.Proofs.StringLiterals
import Registrar.Proofs.TrailingTexts

/-!
# Default values of parameters

The default value of a parameter is to be dropped. Two things of it can leave a trace: what stands in it
behind a comma at depth zero is read as further parameters (`behind`), and where it does not lead back to
depth zero, the comma that follows it is no cut. A value without a trace (`Traceless`) changes nothing,
wherever in a list it stands; a value with one changes what is read of its parameter and some parameter
behind it (`traceless_of_parseList_eq`).

In an expression the round, square and curly brackets match and hold all commas, string literals apart.
It leaves no trace when its angle brackets match too and its literals hold neither brackets nor commas
(`Expression.traceless`). The angle brackets of a shift do not match, and hide the next parameter.
-/

namespace Registrar.Text

variable {t : Text}

theorem length_trim_le (t : Text) : t.trim.length ≤ t.length :=
  Nat.le_trans (trimEnd_isPrefix _).length_le (length_dropWhile_le isBlank t)

/-- A text without white space is left alone. -/
theorem trim_eq_self (h : ∀ c ∈ t, isBlank c = false) : t.trim = t := by
  obtain ⟨front, back, heq, hfront, hback⟩ := exists_eq_trim t
  have hnil : ∀ blanks : Text, (∀ c ∈ blanks, isBlank c = true) → blanks ⊆ t → blanks = [] := by
    intro blanks hblanks hsub
    refine List.eq_nil_iff_forall_not_mem.mpr fun c hc => ?_
    have hsolid := h c (hsub hc)
    rw [hblanks c hc] at hsolid
    cases hsolid
  have hstart : front = [] := hnil front hfront (heq ▸ List.subset_append_left _ _)
  have hend : back = [] := hnil back hback
    (heq ▸ List.subset_append_of_subset_right _ (List.subset_append_right _ _))
  rw [hstart, hend, List.nil_append, List.append_nil] at heq
  exact heq.symm

theorem mem_joinWith {separator piece : Text} {pieces : List Text} (h : piece ∈ pieces) {c : Char}
    (hc : c ∈ piece) : c ∈ joinWith separator pieces := by
  cases pieces with
  | nil => cases h
  | cons first others =>
      rw [joinWith_cons]
      rcases List.mem_cons.mp h with rfl | h
      · exact List.mem_append_left _ hc
      · exact List.mem_append_right _
          (List.mem_flatMap.mpr ⟨piece, h, List.mem_append_right _ hc⟩)

end Registrar.Text

namespace Registrar.Parameter

open Text
open Enumeration (Identifier longName)

variable {p d s t : Text}

/-! ## Lists with default values -/

/-- A parameter of a list: its brackets lead back to depth zero, and no comma stands outside them. -/
structure IsPiece (p : Text) : Prop where
  depth_eq_zero : depth p = 0
  shielded : Shielded ',' 0 p

/-- A parameter, with its default value behind it where it has one. -/
def withDefault (p : Text) : Option Text → Text
  | none => p
  | some d => p ++ (" = ".toList ++ d)

/-- A list of parameters, some of them with default values. -/
def listed (params : List (Text × Option Text)) : Text :=
  joinWith "," (params.map fun x => withDefault x.1 x.2)

/-- What is declared in a text behind the commas at depth zero. -/
def behind (d : Text) : List Text :=
  ((splitCommas 0 d).tail.map declared).filter (· ≠ [])

/-- A default value that leaves no trace in a list. -/
structure Traceless (d : Text) : Prop where
  depth_eq_zero : depth d = 0
  behind_eq_nil : behind d = []

/-- The default value is dropped up to its first cut. -/
theorem declarations_withDefault (hp : IsPiece p) (d : Text) :
    declarations (withDefault p (some d)) = declarations p ++ behind d := by
  obtain ⟨first, rest, hd⟩ := List.exists_cons_of_ne_nil (splitCommas_ne_nil 0 d)
  have hvalue : splitCommas (0 + depth p) (" = ".toList ++ d) = (" = ".toList ++ first) :: rest := by
    rw [hp.depth_eq_zero]
    have hequals : splitCommas 0 " = " = [] ++ [" = ".toList] := by decide
    exact splitCommas_append hequals hd
  have honly : splitCommas 0 p = [] ++ [p] := splitCommas_eq_singleton hp.shielded
  have hpieces : splitCommas 0 (withDefault p (some d)) = (p ++ (" = ".toList ++ first)) :: rest :=
    splitCommas_append honly hvalue
  have hdeclared : declared (p ++ (" = ".toList ++ first)) = declared p := by
    have htext : p ++ (" = ".toList ++ first) = (p ++ " ".toList) ++ '=' :: (" ".toList ++ first) := by
      simp
    have hdepth : 0 + depth (p ++ " ".toList) = 0 := by
      rw [depth_append, hp.depth_eq_zero, depth_blanks isBlank_of_mem_space]
      rfl
    obtain ⟨tail, htail, hblank⟩ :=
      beforeTopLevel_append_blanks isBlank_of_mem_space (by decide : isBlank '=' = false) 0 p
    rw [declared, htext, beforeTopLevel_append_mark hdepth, htail, trim_append_space hblank, declared]
  rw [declarations, hpieces, List.map_cons, hdeclared, behind, hd, declarations, honly,
    List.nil_append, List.map_singleton, List.tail_cons, ← List.filter_append, List.singleton_append]

theorem depth_withDefault (hp : IsPiece p) (d : Text) : depth (withDefault p (some d)) = depth d := by
  have hequals : depth " = " = 0 := by decide
  rw [withDefault, depth_append, depth_append, hp.depth_eq_zero, hequals]
  omega

/-- A text with a mark in it is not a bare `void`. -/
theorem trim_ne_void_of_mem {c : Char} (h : c ∈ t) (hc : c ∈ (",=" : Text)) : t.trim ≠ "void" := by
  have hblank : ∀ c ∈ (",=" : Text), isBlank c = false := forall_mem_of_all (by decide)
  have hvoid : ∀ c ∈ (",=" : Text), c ∉ ("void" : Text) := forall_mem_of_all (by decide)
  intro htrim
  have hmem := mem_trim h (hblank c hc)
  rw [htrim] at hmem
  exact hvoid c hc hmem

theorem parseList_append_comma (s t : Text) :
    parseList (s ++ ',' :: t) = (declarations (s ++ ',' :: t)).map ofDeclaration :=
  parseList_eq (trim_ne_void_of_mem (List.mem_append_right s List.mem_cons_self) (by decide))

/-! ## Values without a trace -/

/-- A list is not a bare `void` if it is none without its default values. -/
theorem trim_listed_ne_void {params : List (Text × Option Text)}
    (h : (joinWith "," (params.map Prod.fst)).trim ≠ "void") : (listed params).trim ≠ "void" := by
  by_cases hvalue : ∃ x ∈ params, ∃ d, x.2 = some d
  · obtain ⟨⟨p, _⟩, hx, d, rfl⟩ := hvalue
    have hmem : '=' ∈ withDefault p (some d) := by simp [withDefault]
    exact trim_ne_void_of_mem (mem_joinWith (List.mem_map_of_mem hx) hmem) (by decide : '=' ∈ _)
  · have hplain : params.map (fun x => withDefault x.1 x.2) = params.map Prod.fst := by
      refine List.map_congr_left fun x hx => ?_
      obtain ⟨p, value⟩ := x
      cases value with
      | none => rfl
      | some d => exact absurd ⟨(p, some d), hx, d, rfl⟩ hvalue
    rwa [listed, hplain]

/-- **Values without a trace are dropped.** The value of the last parameter need not lead back to depth
zero. -/
theorem parseList_listed_of_behind {params : List (Text × Option Text)}
    (hparams : ∀ x ∈ params, IsPiece x.1)
    (hvoid : (joinWith "," (params.map Prod.fst)).trim ≠ "void")
    (hbehind : ∀ x ∈ params, ∀ d, x.2 = some d → behind d = [])
    (hdepth : ∀ x ∈ params.dropLast, ∀ d, x.2 = some d → depth d = 0) :
    parseList (listed params) = parseList (joinWith "," (params.map Prod.fst)) := by
  have hfronts : ∀ x ∈ params.dropLast, IsPiece x.1 :=
    fun x hx => hparams x ((List.dropLast_sublist params).mem hx)
  have hvalues : ∀ text ∈ (params.map fun x => withDefault x.1 x.2).dropLast, depth text = 0 := by
    rw [← List.map_dropLast]
    intro text htext
    obtain ⟨⟨p, value⟩, hx, rfl⟩ := List.mem_map.mp htext
    cases value with
    | none => exact (hfronts _ hx).depth_eq_zero
    | some d => exact (depth_withDefault (hfronts _ hx) d).trans (hdepth _ hx d rfl)
  have hplain : ∀ text ∈ (params.map Prod.fst).dropLast, depth text = 0 := by
    rw [← List.map_dropLast]
    intro text htext
    obtain ⟨x, hx, rfl⟩ := List.mem_map.mp htext
    exact (hfronts x hx).depth_eq_zero
  have hsame : ∀ x ∈ params, declarations (withDefault x.1 x.2) = declarations x.1 := by
    rintro ⟨p, value⟩ hx
    cases value with
    | none => rfl
    | some d =>
        rw [declarations_withDefault (hparams _ hx), hbehind _ hx d rfl]
        exact List.append_nil _
  rw [parseList_eq (trim_listed_ne_void hvoid), parseList_eq hvoid, listed,
    declarations_joinWith hvalues, declarations_joinWith hplain, List.flatMap_map, List.flatMap_map]
  exact congrArg (List.map ofDeclaration ∘ List.flatten) (List.map_congr_left hsame)

theorem listed_pair (p : Text) (value : Option Text) (next : Text) :
    listed [(p, value), (next, none)] = withDefault p value ++ ',' :: next := by
  simp [listed, joinWith, List.intercalate_cons_cons, withDefault]

/-! ## Values with a trace -/

/-- A name is a parameter of its own. -/
theorem isPiece_name (name : Identifier) : IsPiece name.text := by
  have hplain : ∀ c ∈ name.text, c ∉ cutMarks := fun c hc => notMem_cutMarks_of_isWord (name.word c hc)
  exact ⟨depth_eq_zero hplain, shielded_of_notMem (fun hmem => hplain ',' hmem (by decide)) 0⟩

/-- A parameter without a name is all type. -/
theorem normalize_of_ofDeclaration {type : Text} (h : ofDeclaration d = ⟨[], type⟩) :
    TypeName.normalize d = type := by
  unfold ofDeclaration at h
  dsimp only at h
  split at h
  · exact (Parameter.mk.inj h).2
  · next hgood => exact absurd (Or.inl (Parameter.mk.inj h).1) hgood

theorem length_declared_le (piece : Text) : (declared piece).length ≤ piece.length :=
  Nat.le_trans (length_trim_le _) (beforeTopLevel_isPrefix _ _ _).length_le

/-- What is declared in a piece with a comma has the comma in it, or stands before it. -/
theorem mem_or_length_declared_le (front back : Text) :
    ',' ∈ declared (front ++ ',' :: back) ∨
      (declared (front ++ ',' :: back)).length ≤ front.length := by
  unfold declared
  obtain ⟨rest, hrest⟩ := beforeTopLevel_isPrefix '=' 0 (front ++ ',' :: back)
  generalize beforeTopLevel '=' 0 (front ++ ',' :: back) = kept at hrest ⊢
  rcases List.append_eq_append_iff.mp hrest with ⟨tail, hfront, -⟩ | ⟨tail, hkept, htail⟩
  · refine .inr (Nat.le_trans (length_trim_le _) ?_)
    rw [hfront, List.length_append]
    omega
  · cases tail with
    | nil =>
        obtain rfl : kept = front := hkept.trans (List.append_nil front)
        exact .inr (length_trim_le _)
    | cons c tail =>
        obtain ⟨rfl, -⟩ := List.cons.inj htail
        refine .inl (mem_trim ?_ (by decide))
        rw [hkept]
        exact List.mem_append_right _ List.mem_cons_self

/-- Where the comma is no cut, a longer name behind it is not read as a parameter. -/
theorem depth_eq_zero_of_mem {name : Identifier} (hlong : s.length < name.text.length)
    (h : ⟨[], TypeName.normalize name.text⟩ ∈
      (declarations (s ++ ',' :: name.text)).map ofDeclaration) : depth s = 0 := by
  refine Decidable.byContradiction fun hne => ?_
  have hcomma : ',' ∉ name.text := fun hmem => absurd (name.word ',' hmem) (by decide)
  obtain ⟨decl, hdecl, hread⟩ := List.mem_map.mp h
  obtain ⟨piece, hpiece, rfl⟩ := List.mem_map.mp (List.mem_filter.mp hdecl).1
  -- what is declared has the characters of the name, so it is as long and has no comma
  have hsolid : solid (declared piece) = name.text := by
    rw [← TypeName.solid_normalize, normalize_of_ofDeclaration hread, TypeName.solid_normalize]
    exact List.filter_eq_self.mpr fun c hc => by rw [isBlank_eq_false_of_isWord (name.word c hc)]; rfl
  have hlength : name.text.length ≤ (declared piece).length := by
    rw [← hsolid]
    exact List.length_filter_le _ _
  obtain ⟨init, last, hs⟩ := exists_splitCommas_eq 0 s
  have hshort : ∀ u ∈ init ++ [last], u.length ≤ s.length :=
    fun u hu => length_le_of_mem_splitCommas (hs ▸ hu)
  have hbehind : splitCommas (0 + depth s) (',' :: name.text) = [',' :: name.text] := by
    refine splitCommas_eq_singleton (shielded_cons_iff.mpr ⟨fun hcut => hne ?_, ?_⟩)
    · have := hcut.2
      omega
    · exact shielded_of_notMem hcomma _
  rw [splitCommas_append hs hbehind] at hpiece
  rcases List.mem_append.mp hpiece with hpiece | hpiece
  · have hle := length_declared_le piece
    have hinit := hshort piece (List.mem_append_left _ hpiece)
    omega
  · obtain rfl := List.mem_singleton.mp hpiece
    rcases mem_or_length_declared_le last name.text with hmem | hle
    · refine hcomma (hsolid ▸ ?_)
      exact List.mem_filter.mpr ⟨hmem, by decide⟩
    · have hlast := hshort last (List.mem_append_right _ List.mem_cons_self)
      omega

/-- A name without a type is taken for a type without a name. -/
theorem ofDeclaration_longName (n : Nat) : ofDeclaration (longName n).text =
    ⟨[], TypeName.normalize (longName n).text⟩ := by
  have hchars : ∀ c ∈ (longName n).text, isNameChar c = true := by
    intro c hc
    rw [List.eq_of_mem_replicate hc]
    decide
  have hsplit : (longName n).text.splitTail isNameChar =
      ([], (longName n).text) :=
    splitTail_append (t := []) hchars fun c hc => by cases hc
  unfold ofDeclaration
  rw [hsplit]
  exact if_pos (.inr (.inl rfl))

/-- A name is all that it declares. -/
theorem declarations_name (name : Identifier) : declarations name.text = [name.text] := by
  have hequals : '=' ∉ name.text := fun hmem => absurd (name.word '=' hmem) (by decide)
  have hdeclared : declared name.text = name.text := by
    rw [declared, beforeTopLevel_eq_self (shielded_of_notMem hequals 0)]
    exact trim_eq_self fun c hc => isBlank_eq_false_of_isWord (name.word c hc)
  rw [declarations_of_shielded (isPiece_name name).shielded, hdeclared, if_neg name.ne_nil]

/-- **A value that every parameter behind it is read past leaves no trace.** -/
theorem traceless_of_parseList_eq (hp : IsPiece p)
    (h : ∀ next, IsPiece next → parseList (listed [(p, some d), (next, none)]) =
      parseList (listed [(p, none), (next, none)])) : Traceless d := by
  let name := longName (withDefault p (some d)).length
  have hlong : (withDefault p (some d)).length < name.text.length := by
    rw [show name.text.length = (withDefault p (some d)).length + 1 from List.length_replicate]
    exact Nat.lt_succ_self _
  have hsame := h name.text (isPiece_name name)
  rw [listed_pair, listed_pair, parseList_append_comma, parseList_append_comma,
    show withDefault p none = p from rfl, declarations_append_comma hp.depth_eq_zero,
    declarations_name] at hsame
  have hdepth : depth (withDefault p (some d)) = 0 := by
    refine depth_eq_zero_of_mem hlong ?_
    rw [hsame, ← ofDeclaration_longName]
    exact List.mem_map_of_mem (List.mem_append_right _ List.mem_cons_self)
  constructor
  · rw [← depth_withDefault hp, hdepth]
  · -- both lists end in the name, so none is left for a declaration behind a cut
    rw [declarations_append_comma hdepth, declarations_withDefault hp, declarations_name] at hsame
    have hlength := congrArg List.length hsame
    apply List.eq_nil_of_length_eq_zero
    simpa using hlength

/-! ## Expressions -/

/-- A text that is meant as a default value. Outside its string literals, all of which are closed, the
round, square and curly brackets match and hold all commas. -/
structure Expression (d : Text) : Prop where
  closed : '"' ∉ StringLiteral.code d
  enclosed : Enumeration.Enclosed (StringLiteral.code d)

instance (d : Text) : Decidable (Expression d) :=
  decidable_of_iff ('"' ∉ StringLiteral.code d ∧ Enumeration.Enclosed (StringLiteral.code d))
    ⟨fun h => ⟨h.1, h.2⟩, fun h => ⟨h.closed, h.enclosed⟩⟩

/-- A string literal without brackets and commas. -/
def IsQuiet (body : Text) : Prop :=
  ∀ c ∈ body, c ∉ cutMarks

/-- Quiet literals count neither for the depth of a text nor for its commas. -/
theorem depth_code_and_shielded (hquiet : ∀ body ∈ StringLiteral.bodies t, IsQuiet body) :
    depth (StringLiteral.code t) = depth t ∧
      ∀ e, Shielded ',' e (StringLiteral.code t) → Shielded ',' e t := by
  induction t using StringLiteral.literal_induction with
  | nil =>
      rw [StringLiteral.code_nil]
      exact ⟨rfl, fun _ h => h⟩
  | plain c r hnone ih =>
      rw [StringLiteral.bodies_cons hnone] at hquiet
      obtain ⟨hdepth, hshielded⟩ := ih hquiet
      rw [StringLiteral.code_cons hnone]
      refine ⟨by rw [depth_cons, depth_cons, hdepth], fun e h => ?_⟩
      obtain ⟨hfirst, hrest⟩ := shielded_cons_iff.mp h
      exact shielded_cons_iff.mpr ⟨hfirst, hshielded _ hrest⟩
  | literal body rest hbody ih =>
      rw [StringLiteral.bodies_between hbody] at hquiet
      obtain ⟨hdepth, hshielded⟩ := ih fun b hb => hquiet b (List.mem_cons_of_mem _ hb)
      have hplain : ∀ c ∈ StringLiteral.between body, c ∉ cutMarks := by
        intro c hc
        rw [StringLiteral.between, List.mem_cons, List.mem_append, List.mem_singleton] at hc
        rcases hc with rfl | hc | rfl
        · decide
        · exact hquiet body List.mem_cons_self c hc
        · decide
      have hzero : depth (StringLiteral.between body) = 0 := depth_eq_zero hplain
      rw [StringLiteral.code_between hbody]
      refine ⟨by rw [depth_append, hzero, hdepth, Int.zero_add], fun e h => ?_⟩
      refine (shielded_of_notMem (fun hmem => hplain ',' hmem (by decide)) e).append ?_
      rw [hzero, Int.add_zero]
      exact hshielded e h

/-- **An expression leaves no trace when its angle brackets match and its literals are quiet.** -/
theorem Expression.traceless (h : Expression d) (hangles : Balanced '<' '>' (StringLiteral.code d))
    (hquiet : ∀ body ∈ StringLiteral.bodies d, IsQuiet body) : Traceless d := by
  obtain ⟨hdepth, hshielded⟩ := depth_code_and_shielded hquiet
  have hencloses : Encloses bracketPairs "," (StringLiteral.code d) := by
    constructor
    · intro b hb
      rcases List.mem_cons.mp hb with rfl | hb
      · exact hangles
      · exact h.enclosed.balanced b hb
    · intro before c after heq hc
      obtain rfl : c = ',' := by simpa using hc
      have hcomma : (StringLiteral.code d)[before.length]? = some ',' := by simp [heq]
      obtain ⟨b, hb, hopen⟩ := h.enclosed.commas before.length hcomma
      rw [heq, List.take_left] at hopen
      exact ⟨b, List.mem_cons_of_mem _ hb, hopen⟩
  constructor
  · rw [← hdepth, hencloses.depth_eq_zero]
  · rw [behind, splitCommas_eq_singleton (hshielded 0 (hencloses.shielded (by decide)))]
    rfl

/-! ## Parameters with default values -/

/-- **A default value changes nothing when it leaves no trace, and only then.** A list is read as it is
without the default values when nothing is declared behind a comma of theirs and all but that of the last
parameter lead back to depth zero. An expression whose angle brackets match and whose literals are quiet
leaves no trace. And if a default value leaves one, some parameter is not read, or not read alone, behind
the parameter with that value. -/
theorem parseList_listed (params : List (Text × Option Text)) (hparams : ∀ x ∈ params, IsPiece x.1)
    (hvoid : (joinWith "," (params.map Prod.fst)).trim ≠ "void") :
    ((∀ x ∈ params, ∀ d, x.2 = some d → behind d = []) →
      (∀ x ∈ params.dropLast, ∀ d, x.2 = some d → depth d = 0) →
      parseList (listed params) = parseList (joinWith "," (params.map Prod.fst))) ∧
    ∀ x ∈ params, ∀ d, x.2 = some d →
      (Expression d → Balanced '<' '>' (StringLiteral.code d) →
        (∀ body ∈ StringLiteral.bodies d, IsQuiet body) → Traceless d) ∧
      (Traceless d ↔ ∀ next, IsPiece next →
        parseList (listed [(x.1, some d), (next, none)]) =
          parseList (listed [(x.1, none), (next, none)])) := by
  refine ⟨parseList_listed_of_behind hparams hvoid, fun x hx d _ => ⟨Expression.traceless, ?_, ?_⟩⟩
  · intro htraceless next hnext
    have hpair : joinWith "," [x.1, next] = listed [(x.1, none), (next, none)] := rfl
    have hpieces : ∀ y ∈ [(x.1, some d), (next, none)], IsPiece y.1 := by
      simpa using ⟨hparams x hx, hnext⟩
    refine parseList_listed_of_behind hpieces ?_ ?_ ?_
    · show (joinWith "," [x.1, next]).trim ≠ "void"
      rw [hpair, listed_pair]
      exact trim_ne_void_of_mem (List.mem_append_right _ List.mem_cons_self) (by decide : ',' ∈ _)
    · simpa using htraceless.behind_eq_nil
    · simpa using htraceless.depth_eq_zero
  · exact traceless_of_parseList_eq (hparams x hx)

theorem parseList_listed_call :
    parseList "FVector At = FVector(0, 1),FString S = \"s\",TArray<int32> Ids = TArray<int32>(2)" =
      parseList "FVector At,FString S,TArray<int32> Ids" := by
  let params : List (Text × Option Text) := [("FVector At", some "FVector(0, 1)"),
    ("FString S", some "\"s\""), ("TArray<int32> Ids", some "TArray<int32>(2)")]
  have hpieces : ∀ x ∈ params, IsPiece x.1 := by
    have hplain : ∀ x ∈ params, depth x.1 = 0 ∧ ',' ∉ x.1 := by decide
    exact fun x hx => ⟨(hplain x hx).1, shielded_of_notMem (hplain x hx).2 0⟩
  have hbehind : ∀ x ∈ params, ∀ d ∈ x.2, behind d = [] := by decide
  have hdepth : ∀ x ∈ params.dropLast, ∀ d ∈ x.2, depth d = 0 := by decide
  exact (parseList_listed params hpieces (by decide)).1 hbehind hdepth

/-- A shift is an expression, and the parameter behind it is lost. So is a text, and a part of it is
taken for a parameter. -/
theorem shift_hides_parameter :
    Expression "1 << 3" ∧ Expression "\"a, b\"" ∧
      parseList "int32 A,float B" = [⟨"A", "int32"⟩, ⟨"B", "float"⟩] ∧
      parseList "int32 A = 1 << 3,float B" = [⟨"A", "int32"⟩] ∧
      parseList "FString S" = [⟨"S", "FString"⟩] ∧
      parseList "FString S = \"a, b\"" = [⟨"S", "FString"⟩, ⟨[], "b\""⟩] := by
  decide +kernel

end Registrar.Parameter
