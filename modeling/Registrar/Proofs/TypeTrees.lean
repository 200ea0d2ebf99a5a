import Registrar.Proofs.Classification
import Registrar.Proofs.Comments
import Registrar.Proofs.ParameterLists

/-!
# Types as trees

A type is a tree: a name, a template with its arguments, or a pointer to a type. It is written with a
comma and a blank between arguments, and the text is taken apart by the first opening and the last
closing angle bracket and the commas at depth zero between them.

The text of a tree is one argument wherever it stands (`TypeTree.IsArgument`): it leads back to the
depth where it started, and at no depth from zero upwards does it have a comma at depth zero. This holds
of a template because it holds of its arguments one bracket further in, so the induction is on the tree.
Hence a template's name and arguments come back as they were written, whatever stands inside the
arguments, and the outermost template alone decides how a container is classified.
-/

namespace Registrar.Text

variable {t : Text} {pieces : List Text}

/-! ## Pieces with commas between them -/

theorem trim_eq_self_of_ends {first last : Char} (hfirst : t.head? = some first)
    (hlast : t.getLast? = some last) (hfront : isBlank first = false) (hback : isBlank last = false) :
    t.trim = t := by
  have hstart : t.trimStart = t := by
    cases t with
    | nil => cases hfirst
    | cons c r =>
        cases hfirst
        exact List.dropWhile_cons_of_neg (by simp [hfront])
  rw [trim, hstart]
  apply trimEnd_eq_self
  intro c hc
  cases hlast.symm.trans hc
  exact hback

theorem joinWith_cons_cons (first second : Text) (others : List Text) :
    joinWith ", " (first :: second :: others) =
      first ++ ',' :: ' ' :: joinWith ", " (second :: others) := by
  rw [joinWith, List.intercalate_cons_cons, ← joinWith, List.append_assoc]
  rfl

theorem depth_joinWith (h : ∀ piece ∈ pieces, depth piece = 0) :
    depth (joinWith ", " pieces) = 0 := by
  induction pieces with
  | nil => rfl
  | cons first others ih =>
      obtain ⟨hfirst, hothers⟩ := List.forall_mem_cons.mp h
      cases others with
      | nil => rwa [joinWith, List.intercalate_singleton]
      | cons second others =>
          have hcomma : depthStep ',' = 0 := by decide
          have hblank : depthStep ' ' = 0 := by decide
          rw [joinWith_cons_cons, depth_append, depth_cons, depth_cons, hcomma, hblank, hfirst,
            ih hothers]
          rfl

/-- Away from depth zero, the commas between pieces are shielded as well. -/
theorem shielded_joinWith {d : Int} (hd : d ≠ 0) (hdepth : ∀ piece ∈ pieces, depth piece = 0)
    (h : ∀ piece ∈ pieces, Shielded ',' d piece) : Shielded ',' d (joinWith ", " pieces) := by
  induction pieces with
  | nil => exact shielded_of_notMem (by simp [joinWith]) d
  | cons first others ih =>
      obtain ⟨hfirst, hothers⟩ := List.forall_mem_cons.mp h
      obtain ⟨hzero, hzeros⟩ := List.forall_mem_cons.mp hdepth
      cases others with
      | nil => rwa [joinWith, List.intercalate_singleton]
      | cons second others =>
          have hcomma : depthStep ',' = 0 := by decide
          have hblank : depthStep ' ' = 0 := by decide
          rw [joinWith_cons_cons]
          apply hfirst.append
          rw [hzero, Int.add_zero, shielded_cons_iff, shielded_cons_iff, hcomma, hblank, Int.add_zero,
            Int.add_zero]
          exact ⟨fun h => hd h.2, fun h => hd h.2, ih hzeros hothers⟩

/-- Pieces that hold no comma at depth zero are found again between the commas. -/
theorem splitTopLevel_joinWith (hne : pieces ≠ []) (hdepth : ∀ piece ∈ pieces, depth piece = 0)
    (h : ∀ piece ∈ pieces, Shielded ',' 0 piece) :
    splitTopLevel (joinWith ", " pieces) = pieces.map trim := by
  obtain ⟨first, others, rfl⟩ := List.exists_cons_of_ne_nil hne
  -- the blank behind a comma belongs to the piece that it stands before, and is trimmed with it
  have hjoin : joinWith ", " (first :: others) =
      joinWith "," (first :: others.map (' ' :: ·)) := by
    rw [joinWith_cons, joinWith_cons, List.flatMap_map]
    rfl
  have hblank : depthStep ' ' = 0 := by decide
  have hspaced : ∀ piece ∈ first :: others.map (' ' :: ·), depth piece = 0 ∧ Shielded ',' 0 piece := by
    intro piece hmem
    rcases List.mem_cons.mp hmem with rfl | hmem
    · exact ⟨hdepth piece List.mem_cons_self, h piece List.mem_cons_self⟩
    · obtain ⟨core, hcore, rfl⟩ := List.mem_map.mp hmem
      have hzero := hdepth core (List.mem_cons_of_mem _ hcore)
      have hshield := h core (List.mem_cons_of_mem _ hcore)
      rw [depth_cons, shielded_cons_iff, hblank, hzero]
      exact ⟨rfl, fun heq => absurd heq.1 (by decide), hshield⟩
  have htrim : trim ∘ (' ' :: ·) = trim := funext (trim_blanks_append isBlank_of_mem_space)
  rw [splitTopLevel, hjoin, splitCommas_joinWith_eq_self (List.cons_ne_nil _ _)
    (fun piece hmem => (hspaced piece hmem).1)
    (fun piece hmem => splitCommas_eq_singleton (hspaced piece hmem).2), List.map_cons, List.map_map,
    htrim, List.map_cons]

end Registrar.Text

namespace Registrar.TypeName

open Text

/-! ## The parts of a template -/

/-- What stands between the outermost angle brackets is found, whatever angle brackets it holds. -/
theorem insideAngles_eq {front back : Text} (hfront : '<' ∉ front) (hback : '>' ∉ back)
    (inside : Text) : insideAngles (front ++ '<' :: (inside ++ '>' :: back)) = inside := by
  have hend : '>' ∉ back.reverse := mt List.mem_reverse.mp hback
  rw [insideAngles, dropWhile_ne_append hfront, List.drop_succ_cons, List.drop_zero,
    List.reverse_append, List.reverse_cons, List.append_assoc, List.singleton_append,
    dropWhile_ne_append hend, List.drop_succ_cons, List.drop_zero, List.reverse_reverse]

/-- A word before the first angle bracket is the name of the template. -/
theorem templateHead?_word {word : Text} (hne : word ≠ []) (hword : ∀ c ∈ word, isWord c = true)
    (rest : Text) : templateHead? (word ++ '<' :: rest) = some word := by
  have hopen : '<' ∉ word := fun hmem => absurd (hword '<' hmem) (by decide)
  have hcolon : ':' ∉ word.reverse := fun hmem =>
    absurd (hword ':' (List.mem_reverse.mp hmem)) (by decide)
  have hsolid : ∀ c ∈ word, isBlank c = false := fun c hc => isBlank_eq_false_of_isWord (hword c hc)
  have hbefore : beforeAngle? (word ++ '<' :: rest) = some word := by
    rw [beforeAngle?, if_pos (by simp), takeWhile_ne_append hopen]
  have htrim : word.trimEnd = word :=
    trimEnd_eq_self fun c hc => hsolid c (List.mem_of_getLast? hc)
  have htail : word.splitTail (!isBlank ·) = ([], word) := by
    have hsplit : splitTail (!isBlank ·) ([] ++ word) = ([], word) :=
      splitTail_append (fun c hc => by simp [hsolid c hc]) (by simp)
    exact hsplit
  have hname : unqualified word = word := by
    have hcut : cut? word.reverse "::" = none := cut?_pair_eq_none (Or.inl hcolon)
    rw [unqualified, hcut]
  rw [templateHead?, hbefore]
  simp only [htrim, htail, hname, if_neg hne]

end Registrar.TypeName

namespace Registrar

open Text

/-! ## Trees and their texts -/

/-- One or more word characters. -/
structure Word where
  text : Text
  ne_nil : text ≠ []
  word : ∀ c ∈ text, isWord c = true

/-- A type: a name, a template with its arguments, of which there is at least one, or a pointer. -/
inductive TypeTree
  | name (word : Word)
  | template (head : Word) (first : TypeTree) (others : List TypeTree)
  | pointer (target : TypeTree)

namespace TypeTree

mutual

/-- The type as it is written. -/
def text : TypeTree → Text
  | name word => word.text
  | template head first others =>
    head.text ++ '<' :: (joinWith ", " (first.text :: texts others) ++ ">")
  | pointer target => target.text ++ "*"

/-- Types as they are written, one by one. -/
def texts : List TypeTree → List Text
  | [] => []
  | first :: others => first.text :: texts others

end

theorem texts_eq_map (types : List TypeTree) : texts types = types.map text := by
  induction types with
  | nil => rfl
  | cons first others ih => rw [texts, ih, List.map_cons]

/-- The type with stars behind it. -/
def starred (type : TypeTree) : Nat → TypeTree
  | 0 => type
  | stars + 1 => pointer (type.starred stars)

theorem text_starred (type : TypeTree) (stars : Nat) :
    (type.starred stars).text = type.text ++ List.replicate stars '*' := by
  induction stars with
  | zero => exact (List.append_nil _).symm
  | succ stars ih =>
      rw [starred, text, ih, List.append_assoc, List.replicate_succ']
      rfl

/-! ## A type is one argument -/

/-- A text that is one argument of a template, at any depth: it starts and ends in something else than
white space, and no comma in it is ever at depth zero. -/
structure IsArgument (t : Text) : Prop where
  first : ∃ c, t.head? = some c ∧ isBlank c = false
  last : ∃ c, t.getLast? = some c ∧ isBlank c = false
  depth : depth t = 0
  shielded : ∀ d : Int, 0 ≤ d → Shielded ',' d t

theorem IsArgument.trim_eq {t : Text} (h : IsArgument t) : t.trim = t := by
  obtain ⟨first, hfirst, hfront⟩ := h.first
  obtain ⟨last, hlast, hback⟩ := h.last
  exact trim_eq_self_of_ends hfirst hlast hfront hback

theorem IsArgument.ne_nil {t : Text} (h : IsArgument t) : t ≠ [] := by
  obtain ⟨c, hc, -⟩ := h.first
  rintro rfl
  cases hc

theorem isArgument_word (w : Word) : IsArgument w.text := by
  have hplain : ∀ c ∈ w.text, c ∉ cutMarks := fun c hc => notMem_cutMarks_of_isWord (w.word c hc)
  have hsolid : ∀ c ∈ w.text, isBlank c = false := fun c hc => isBlank_eq_false_of_isWord (w.word c hc)
  refine ⟨⟨_, List.head?_eq_some_head w.ne_nil, hsolid _ (List.head_mem _)⟩,
    ⟨_, List.getLast?_eq_some_getLast w.ne_nil, hsolid _ (List.getLast_mem _)⟩,
    depth_eq_zero hplain, fun d _ => shielded_of_notMem (fun hmem => ?_) d⟩
  exact hplain ',' hmem (by decide)

/-- Arguments in the brackets of a template make an argument. -/
theorem isArgument_template (head : Word) {pieces : List Text} (h : ∀ p ∈ pieces, IsArgument p) :
    IsArgument (head.text ++ '<' :: (joinWith ", " pieces ++ ">")) := by
  have hhead := isArgument_word head
  have hdepth := depth_joinWith fun p hp => (h p hp).depth
  have hlast : (head.text ++ '<' :: (joinWith ", " pieces ++ ">")).getLast? = some '>' := by
    rw [← List.cons_append, ← List.append_assoc]
    exact List.getLast?_concat
  refine ⟨?_, ⟨'>', hlast, by decide⟩, ?_, ?_⟩
  · obtain ⟨c, hc, hsolid⟩ := hhead.first
    exact ⟨c, by rw [List.head?_append, hc]; rfl, hsolid⟩
  · rw [depth_append, depth_cons, depth_append, hhead.depth, hdepth]
    decide
  · intro d hd
    -- one bracket further in, no piece is at depth zero where it starts
    have hinside : Shielded ',' (d + 1) (joinWith ", " pieces) :=
      shielded_joinWith (by omega) (fun p hp => (h p hp).depth)
        fun p hp => (h p hp).shielded (d + 1) (by omega)
    apply (hhead.shielded d hd).append
    rw [hhead.depth, Int.add_zero, shielded_cons_iff]
    exact ⟨by simp, hinside.append (shielded_of_notMem (by decide) _)⟩

theorem isArgument_pointer {t : Text} (h : IsArgument t) : IsArgument (t ++ "*") := by
  refine ⟨?_, ⟨'*', List.getLast?_concat, by decide⟩, ?_, ?_⟩
  · obtain ⟨c, hc, hsolid⟩ := h.first
    exact ⟨c, by rw [List.head?_append, hc]; rfl, hsolid⟩
  · rw [depth_append, h.depth]
    decide
  · intro d hd
    exact (h.shielded d hd).append (shielded_of_notMem (by decide) _)

mutual

theorem isArgument_text : (type : TypeTree) → IsArgument type.text
  | name word => isArgument_word word
  | template head first others =>
    isArgument_template head
      (List.forall_mem_cons.mpr ⟨isArgument_text first, isArgument_texts others⟩)
  | pointer target => isArgument_pointer (isArgument_text target)

theorem isArgument_texts : (types : List TypeTree) → ∀ t ∈ texts types, IsArgument t
  | [] => by simp [texts]
  | first :: others =>
    List.forall_mem_cons.mpr ⟨isArgument_text first, isArgument_texts others⟩

end

/-! ## A template is taken apart as it was written -/

section

variable (head : Word) (first : TypeTree) (others : List TypeTree) (stars : Nat)

theorem text_template_starred : ((template head first others).starred stars).text =
    head.text ++ '<' :: (joinWith ", " ((first :: others).map text) ++
      '>' :: List.replicate stars '*') := by
  rw [text_starred, text, texts_eq_map, List.append_assoc, List.cons_append, List.append_assoc]
  rfl

theorem templateHead?_starred :
    TypeName.templateHead? ((template head first others).starred stars).text = some head.text := by
  rw [text_template_starred, TypeName.templateHead?_word head.ne_nil head.word]

theorem templateArgs_starred :
    TypeName.templateArgs ((template head first others).starred stars).text =
      (first :: others).map text := by
  have hargument : ∀ t ∈ (first :: others).map text, IsArgument t := by
    intro t ht
    obtain ⟨type, -, rfl⟩ := List.mem_map.mp ht
    exact isArgument_text type
  have hopen : '<' ∉ head.text := fun hmem => absurd (head.word '<' hmem) (by decide)
  have hclose : '>' ∉ List.replicate stars '*' := by simp
  have hne : (first :: others).map text ≠ [] := by simp
  have htrim : ((first :: others).map text).map trim = (first :: others).map text :=
    (List.map_congr_left fun t ht => (hargument t ht).trim_eq).trans (List.map_id' _)
  rw [text_template_starred, TypeName.templateArgs, TypeName.insideAngles_eq hopen hclose,
    splitTopLevel_joinWith hne (fun t ht => (hargument t ht).depth)
      (fun t ht => (hargument t ht).shielded 0 (Int.le_refl 0)), htrim]
  exact List.filter_eq_self.mpr fun t ht => decide_eq_true (hargument t ht).ne_nil

end

end TypeTree

namespace Property

variable {table : MacroTable} {p : Property}

/-- A map records the kinds of its first two arguments. -/
theorem classify_map {key value : Text} {more : List Text}
    (htemplate : Template.ofType? p.declaredType = some .map)
    (hargs : TypeName.templateArgs p.declaredType = key :: value :: more) :
    (p.classify table).registration = .map ∧
      (p.classify table).extra.get? keyTypeKey = some (ElementKind.ofType table key).tag ∧
      (p.classify table).extra.get? valueTypeKey = some (ElementKind.ofType table value).tag := by
  have hne : valueTypeKey ≠ keyTypeKey := by decide
  rw [(Rule.map key value more htemplate hargs).classify_eq]
  refine ⟨rfl, ?_, ?_⟩
  · rw [Dict.get?_insert_of_ne hne, Dict.get?_insert_self]
  · exact Dict.get?_insert_self ..

/-- An array records the kind of its first argument, and whether that is a structure decides its form. -/
theorem classify_array {element : Text} {more : List Text}
    (htemplate : Template.ofType? p.declaredType = some .array)
    (hargs : TypeName.templateArgs p.declaredType = element :: more) :
    (p.classify table).registration = (if isStructName element then .structArray else .array) ∧
      (p.classify table).extra.get? innerTypeKey =
        some (ElementKind.ofType table element).tag := by
  have hne : structTypeKey ≠ innerTypeKey := by decide
  cases hstruct : isStructName element with
  | true =>
      rw [(Rule.structArray element more htemplate hargs hstruct).classify_eq]
      refine ⟨rfl, ?_⟩
      rw [Dict.get?_insert_of_ne hne, Dict.get?_insert_self]
  | false =>
      rw [(Rule.array element more htemplate hargs hstruct).classify_eq]
      exact ⟨rfl, Dict.get?_insert_self ..⟩

end Property

namespace TypeTree

/-- **The outermost template decides.** The name and the arguments of a template, with stars behind it
or not, are those it was written with, whatever its arguments are. So a map is registered as a map, with
the kinds of its first two arguments, and an array as an array, with the kind of its element. -/
theorem outermost_template_decides (head : Word) (first : TypeTree) (others : List TypeTree)
    (stars : Nat) :
    TypeName.templateHead? ((template head first others).starred stars).text = some head.text ∧
      TypeName.templateArgs ((template head first others).starred stars).text =
        (first :: others).map text ∧
      ∀ (table : MacroTable) (p : Property),
        p.declaredType = ((template head first others).starred stars).text →
        (head.text.lower = "tmap" → ∀ second more, others = second :: more →
          (p.classify table).registration = .map ∧
          (p.classify table).extra.get? Property.keyTypeKey =
            some (ElementKind.ofType table first.text).tag ∧
          (p.classify table).extra.get? Property.valueTypeKey =
            some (ElementKind.ofType table second.text).tag) ∧
        (head.text.lower = "tarray" →
          (p.classify table).registration =
            (if isStructName first.text then .structArray else .array) ∧
          (p.classify table).extra.get? Property.innerTypeKey =
            some (ElementKind.ofType table first.text).tag) := by
  have hhead := templateHead?_starred head first others stars
  have hargs := templateArgs_starred head first others stars
  refine ⟨hhead, hargs, ?_⟩
  intro table p htype
  rw [← htype] at hhead hargs
  constructor
  · rintro hmap second more rfl
    exact Property.classify_map (Template.ofType?_of_templateHead? hhead hmap) hargs
  · intro harray
    exact Property.classify_array (Template.ofType?_of_templateHead? hhead harray) hargs

/-- A table with one macro, for boxes. -/
def boxTable : MacroTable :=
  ⟨[⟨"ADD_PROPERTY_BOX", "Box"⟩]⟩

/-- A name whose characters are checked by evaluation. -/
def ofText (word : Text) (hne : word ≠ []) (hword : word.all isWord = true) : TypeTree :=
  name ⟨word, hne, List.all_eq_true.mp hword⟩

def mapWord : Word := ⟨"TMap", by decide, List.all_eq_true.mp (by decide)⟩

def arrayWord : Word := ⟨"TArray", by decide, List.all_eq_true.mp (by decide)⟩

def boxes : TypeTree :=
  pointer (template arrayWord (pointer (ofText "UBox" (by decide) (by decide))) [])

/-- A pointer to a map whose values are pointers to arrays of pointers. -/
def boxMap : TypeTree :=
  (template mapWord (ofText "FName" (by decide) (by decide))
    [boxes, ofText "FCurve" (by decide) (by decide)]).starred 1

theorem outermost_template_decides_nested :
    (boxMap.text = "TMap<FName, TArray<UBox*>*, FCurve>*" ∧ mapWord.text.lower = "tmap" ∧
      arrayWord.text.lower = "tarray") ∧
    (((Property.bare "Boxes" boxMap.text).classify boxTable).registration = .map ∧
      ((Property.bare "Boxes" boxMap.text).classify boxTable).extra.get? Property.keyTypeKey =
        some "EPropertyType::FName".toList ∧
      ((Property.bare "Boxes" boxMap.text).classify boxTable).extra.get? Property.valueTypeKey =
        some "EPropertyType::Box".toList) ∧
    TypeName.templateArgs (template arrayWord boxMap []).text =
      ["TMap<FName, TArray<UBox*>*, FCurve>*".toList] ∧
    ((Property.bare "All" (template arrayWord boxMap []).text).classify boxTable).registration =
      .array ∧
    ((Property.bare "All" (template arrayWord boxMap []).text).classify boxTable).extra.get?
      Property.innerTypeKey = some "EPropertyType::Box".toList := by
  have htext : boxMap.text = "TMap<FName, TArray<UBox*>*, FCurve>*" := by decide +kernel
  have hmap : mapWord.text.lower = "tmap" := by decide
  have harray : arrayWord.text.lower = "tarray" := by decide
  obtain ⟨-, -, hboxes⟩ := outermost_template_decides mapWord
    (ofText "FName" (by decide) (by decide)) [boxes, ofText "FCurve" (by decide) (by decide)] 1
  obtain ⟨hform, hkey, hvalue⟩ :=
    (hboxes boxTable (Property.bare "Boxes" boxMap.text) rfl).1 hmap _ _ rfl
  obtain ⟨-, hargs, hall⟩ := outermost_template_decides arrayWord boxMap [] 0
  obtain ⟨hallForm, hinner⟩ :=
    (hall boxTable (Property.bare "All" (template arrayWord boxMap []).text) rfl).2 harray
  exact ⟨⟨htext, hmap, harray⟩,
    ⟨hform, hkey.trans (by decide +kernel), hvalue.trans (by decide +kernel)⟩,
    hargs.trans (by rw [List.map_singleton, htext]), hallForm.trans (by decide +kernel),
    hinner.trans (by decide +kernel)⟩

end TypeTree

end Registrar
