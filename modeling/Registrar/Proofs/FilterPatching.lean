import Registrar.Proofs.FilterAssignment
import Registrar.Proofs.ProjectItems

/-!
# Patching a filters file twice

A filters file is patched by a row of edits: the filter is declared, the listed items are moved to it
and the others are added. Each step keeps what the steps before it have reached (`Keeps`), so after
the last one the filter is declared and all items are filed, and patching once more changes nothing.
-/

namespace Registrar.ProjectFile

open Text ProjectItem

variable {nl t out : Text} {i : ProjectItem}

/-! ## What every step keeps -/

/-- An item is listed, with the filter for generated files. -/
def Filed (i : ProjectItem) (t : Text) : Prop :=
  ∃ o, locate? i t = some o ∧ Settled i.kind o.rest

/-- An item can be filed where it is listed. -/
def Fits (i : ProjectItem) (t : Text) : Prop :=
  ∀ o, locate? i t = some o → Fileable i.kind o.rest

theorem fits_of_check {i : ProjectItem} {t : Text}
    (h : (locate? i t).all (fun o => fileable i.kind o.rest) = true) : Fits i t := by
  intro o ho
  rw [ho] at h
  exact fileable_of_check h

/-- The filter for generated files is declared. -/
def Declared (t : Text) : Prop :=
  generatedFilter ∈ t.findAll takeFilter?

/-- A step that is about some items keeps what is known about the others. -/
structure Keeps (keys : List (ItemKind × Text)) (t out : Text) : Prop where
  neat : Neat out
  declared : Declared t → Declared out
  unlisted : ∀ i : ProjectItem, i.key ∉ keys → locate? i t = none → locate? i out = none
  filed : ∀ i : ProjectItem, i.key ∉ keys → Filed i t → Filed i out
  fits : ∀ i : ProjectItem, i.key ∉ keys → Fits i t → Fits i out

theorem Edited.keeps {keys : List (ItemKind × Text)} (h : Edited keys t out) (hneat : Neat t) :
    Keeps keys t out where
  neat := h.neat hneat
  declared := h.declared hneat
  unlisted := fun i hkey => h.locate?_eq_none hneat hkey
  filed := by
    rintro i hkey ⟨o, ho, hset⟩
    obtain ⟨o', ho', hkeep, -⟩ := h.locate?_eq_some hneat hkey ho
    exact ⟨o', ho', hkeep hset⟩
  fits := by
    intro i hkey hfits o' ho'
    cases ho : locate? i t with
    | none =>
        rw [h.locate?_eq_none hneat hkey ho] at ho'
        cases ho'
    | some o =>
        obtain ⟨o'', ho'', -, hkeep⟩ := h.locate?_eq_some hneat hkey ho
        rw [ho'] at ho''
        exact Option.some.inj ho'' ▸ hkeep (hfits o ho)

theorem Keeps.refl (hneat : Neat t) (keys : List (ItemKind × Text)) : Keeps keys t t :=
  Edited.keeps (.inl rfl) hneat

theorem Keeps.trans {keys keys' : List (ItemKind × Text)} {mid : Text} (h : Keeps keys t mid)
    (h' : Keeps keys' mid out) : Keeps (keys ++ keys') t out := by
  have hboth : ∀ {i : ProjectItem}, i.key ∉ keys ++ keys' → i.key ∉ keys ∧ i.key ∉ keys' := by
    intro i hkey
    rw [List.mem_append, not_or] at hkey
    exact hkey
  exact ⟨h'.neat, fun hd => h'.declared (h.declared hd),
    fun i hkey hi => h'.unlisted i (hboth hkey).2 (h.unlisted i (hboth hkey).1 hi),
    fun i hkey hi => h'.filed i (hboth hkey).2 (h.filed i (hboth hkey).1 hi),
    fun i hkey hi => h'.fits i (hboth hkey).2 (h.fits i (hboth hkey).1 hi)⟩

/-! ## The run over all items -/

/-- The items that are left over keep their order. -/
theorem assignAll_sublist (nl : Text) (items : List ProjectItem) (t : Text) :
    (assignAll nl items t).2.Sublist items := by
  induction items generalizing t with
  | nil => exact List.Sublist.refl _
  | cons i items ih =>
      rw [assignAll]
      cases assign? i nl t with
      | none => exact (ih t).cons_cons i
      | some mid => exact (ih mid).cons i

/-- The items of a list are filed one after the other, those that are listed. -/
theorem assignAll_files (hnl : IsLineBreak nl) {items : List ProjectItem} (hneat : Neat t)
    (hnodup : (items.map key).Nodup) (hfits : ∀ i ∈ items, Fits i t) :
    Keeps (items.map key) t (assignAll nl items t).1 ∧
      (∀ i ∈ (assignAll nl items t).2, locate? i (assignAll nl items t).1 = none) ∧
      ∀ i ∈ items, i ∈ (assignAll nl items t).2 ∨ Filed i (assignAll nl items t).1 := by
  induction items generalizing t with
  | nil => exact ⟨Keeps.refl hneat _, nofun, nofun⟩
  | cons i items ih =>
      rw [List.map_cons, List.nodup_cons] at hnodup
      rw [List.forall_mem_cons] at hfits
      have hother : ∀ j ∈ items, j.key ∉ [i.key] := fun j hj hmem =>
        hnodup.1 (List.mem_singleton.mp hmem ▸ List.mem_map_of_mem hj)
      rw [assignAll]
      cases hassign : assign? i nl t with
      | none =>
          have hnone := assign?_eq_none_iff.mp hassign
          obtain ⟨hkeeps, hmissing, hall⟩ := ih hneat hnodup.2 hfits.2
          exact ⟨(Keeps.refl hneat [i.key]).trans hkeeps,
            List.forall_mem_cons.mpr ⟨hkeeps.unlisted i hnodup.1 hnone, hmissing⟩,
            List.forall_mem_cons.mpr ⟨.inl List.mem_cons_self,
              fun j hj => (hall j hj).imp_left (List.mem_cons_of_mem i)⟩⟩
      | some mid =>
          cases ho : locate? i t with
          | none =>
              rw [assign?_eq_none_iff.mpr ho] at hassign
              cases hassign
          | some o =>
              obtain ⟨mid', hassign', hedited, hfiled⟩ := assign?_files hnl hneat ho (hfits.1 o ho)
              rw [hassign] at hassign'
              obtain rfl := Option.some.inj hassign'
              have hstep := hedited.keeps hneat
              obtain ⟨hkeeps, hmissing, hall⟩ := ih hstep.neat hnodup.2 fun j hj =>
                hstep.fits j (hother j hj) (hfits.2 j hj)
              exact ⟨hstep.trans hkeeps, hmissing,
                List.forall_mem_cons.mpr ⟨.inr (hkeeps.filed i hnodup.1 hfiled), hall⟩⟩

/-! ## New items -/

theorem filed_append {p q : Text} (hparts : Parts takeItem? p q) (hp : locate? i p = none)
    (hq : Filed i q) : Filed i (p ++ q) := by
  obtain ⟨o, ho, hset⟩ := hq
  refine ⟨o.shift p, ?_, hset⟩
  unfold locate? at hp ho ⊢
  rw [takesPiece_takeItem?.findFirst?_append_of_none hparts hp, ho]
  rfl

theorem parts_of_fenced {p q : Text} (hp : Neat p) (hq : Fenced q) : Parts takeItem? p q :=
  parts_takeItem? fun kind =>
    parts_takeElement? (hp.tidy kind) (uncrossed_of_fenced (isName_element kind) hq p)

theorem parts_of_sealed {p : Text} (hp : Neat p) (hsealed : Sealed p) (q : Text) :
    Parts takeItem? p q :=
  parts_takeItem? fun kind =>
    parts_takeElement? (hp.tidy kind) (uncrossed_of_sealed (isName_element kind) hsealed q)

theorem items_filteredLine (hnl : IsLineBreak nl) (hne : i.path ≠ []) (hpath : Unmarked i.path) :
    items (filteredLine nl i) = [i] := by
  have hblock : Block (filteredElement i nl) := by
    simpa using block_filteredElement isBlank_of_mem_nil List.not_mem_nil i nl
  have hblanks : Neat "    " := neat_of_check (by decide)
  have helement := neat_filteredElement hnl hpath
  show findAll takeItem? ("    ".toList ++ (filteredElement i nl ++ nl)) = _
  rw [takesPiece_takeItem?.findAll_append (parts_of_fenced hblanks (hblock.fenced_append nl)),
    takesPiece_takeItem?.findAll_append (parts_of_sealed helement hblock.isSealed nl)]
  show items "    ".toList ++ (items (filteredElement i nl) ++ items nl) = _
  rw [items_eq_nil_of_notMem (by decide), items_filteredElement hnl hne hpath,
    items_eq_nil_of_notMem hnl.notMem, List.nil_append, List.append_nil]

theorem items_filteredLines (hnl : IsLineBreak nl) {l : List ProjectItem}
    (hpaths : ∀ j ∈ l, j.path ≠ [] ∧ Unmarked j.path) : items (l.flatMap (filteredLine nl)) = l := by
  rw [items_flatMap (fun j _ => block_filteredLine hnl j)
    fun j hj kind => (neat_filteredLine hnl (hpaths j hj).2).tidy kind]
  induction l with
  | nil => rfl
  | cons j l ih =>
      rw [List.forall_mem_cons] at hpaths
      rw [List.flatMap_cons, ih hpaths.2, items_filteredLine hnl hpaths.1.1 hpaths.1.2]
      rfl

/-- A step that puts in lines for new items, bare or in a group, is an edit about them. -/
theorem Inserted.edited {l : List ProjectItem} (hnl : IsLineBreak nl) (hne : l ≠ [])
    (hpaths : ∀ j ∈ l, j.path ≠ [] ∧ Unmarked j.path)
    (h : Inserted nl (l.flatMap (filteredLine nl)) t out) : Edited (l.map key) t out := by
  have hrep := replaces_filteredLines hnl hne fun j hj => (hpaths j hj).2
  have hitems := items_filteredLines hnl hpaths
  have hkeys : ∀ j ∈ items [] ++ l, j.key ∈ l.map key := by
    intro j hj
    rw [items_eq_nil_of_notMem List.not_mem_nil] at hj
    exact List.mem_map_of_mem hj
  obtain ⟨a, x, b, rfl, rfl, rfl | rfl, hseam⟩ := h
  · exact .inr ⟨a, [], _, b, rfl, rfl, hseam, hrep, by rwa [hitems]⟩
  · refine .inr ⟨a, [], _, b, rfl, rfl, hseam, hrep.itemGroup hnl, ?_⟩
    rwa [items_itemGroup hnl hrep.neat.tidy, hitems]

/-- Among lines for new items each of the items is filed. -/
theorem filed_filteredLines (hnl : IsLineBreak nl) {l : List ProjectItem}
    (hpaths : ∀ j ∈ l, j.path ≠ [] ∧ Unmarked j.path) (hi : i ∈ l) (rest : Text) :
    Filed i (l.flatMap (filteredLine nl) ++ rest) := by
  induction l with
  | nil => cases hi
  | cons j l ih =>
      rw [List.forall_mem_cons] at hpaths
      have hline := neat_filteredLine hnl hpaths.1.2
      rw [List.flatMap_cons, List.append_assoc]
      by_cases hkey : j.key = i.key
      · have hblanks : Neat "    " := neat_of_check (by decide)
        have hnone : locate? i "    " = none := by
          rw [locate?_eq_none_iff, items_eq_nil_of_notMem (by decide)]
          nofun
        obtain ⟨o, ho, hrest⟩ := locate?_append hblanks.tidy hnone hkey hpaths.1.1 hpaths.1.2.1
          gap_space ('>' :: (filteredRest j.kind nl ++ (nl ++ (l.flatMap (filteredLine nl) ++ rest))))
        rw [filteredLine_append]
        refine ⟨o, ho, ?_⟩
        rw [hrest, ← kind_eq_of_key_eq hkey]
        exact settled_filteredRest hnl j.kind _
      · have hmem : i ∈ l := (List.mem_cons.mp hi).resolve_left fun heq => hkey (heq ▸ rfl)
        refine filed_append (parts_of_sealed hline (block_filteredLine hnl j).isSealed _) ?_
          (ih hpaths.2 hmem)
        rw [locate?_eq_none_iff, items_filteredLine hnl hpaths.1.1 hpaths.1.2]
        simpa using Ne.symm hkey

/-- After lines for new items were put in, each of the items is filed. -/
theorem Inserted.filed {l : List ProjectItem} (hnl : IsLineBreak nl)
    (hpaths : ∀ j ∈ l, j.path ≠ [] ∧ Unmarked j.path) (hneat : Neat t)
    (h : Inserted nl (l.flatMap (filteredLine nl)) t out) (hi : i ∈ l)
    (hnone : locate? i t = none) : Filed i out := by
  have hne := List.ne_nil_of_mem hi
  have hrep := replaces_filteredLines hnl hne fun j hj => (hpaths j hj).2
  have hlines := filed_filteredLines hnl hpaths hi
  have hfront : ∀ {a x b : Text}, Neat (a ++ b) → Seam a b → locate? i (a ++ b) = none →
      Block x → Filed i (x ++ b) → Filed i (a ++ (x ++ b)) := by
    intro a x b hab hseam hnone hblock hfiled
    have ha : Neat a := fun element hmem => hseam.tidy_left (hab element hmem)
    rw [locate?_eq_none_iff, items_append ha.tidy
      fun kind => hseam.uncrossed (isName_element kind) (hab.tidy kind), List.map_append,
      List.mem_append, not_or] at hnone
    exact filed_append (parts_of_fenced ha (hblock.fenced_append b))
      (locate?_eq_none_iff.mpr hnone.1) hfiled
  obtain ⟨a, x, b, rfl, rfl, rfl | rfl, hseam⟩ := h
  · exact hfront hneat hseam hnone hrep.block (hlines b)
  · refine hfront hneat hseam hnone (block_itemGroup hnl _) ?_
    have htext : itemGroup nl (l.flatMap (filteredLine nl)) ++ b = ("  <ItemGroup>" ++ nl) ++
        (l.flatMap (filteredLine nl) ++ ("  </ItemGroup>" ++ nl ++ b)) := by
      rw [itemGroup_eq]
      simp only [List.append_assoc]
    rw [htext]
    refine filed_append (parts_of_sealed (neat_groupStart hnl) (sealed_groupStart hnl) _) ?_ (hlines _)
    rw [locate?_eq_none_iff, items_groupStart hnl]
    nofun

theorem Keeps.mono {keys keys' : List (ItemKind × Text)} (h : Keeps keys t out)
    (hsub : keys ⊆ keys') : Keeps keys' t out :=
  ⟨h.neat, h.declared, fun i hkey => h.unlisted i fun hmem => hkey (hsub hmem),
    fun i hkey => h.filed i fun hmem => hkey (hsub hmem),
    fun i hkey => h.fits i fun hmem => hkey (hsub hmem)⟩

section

variable {l : List ProjectItem}

/-- The text after the lines for the new items of a kind were put in. -/
def insertKind (nl : Text) (l : List ProjectItem) (t : Text) (kind : ItemKind) : Text :=
  if linesOf (filteredLine nl) l kind = [] then t
  else insert (takeOpening? kind.element) (linesOf (filteredLine nl) l kind) nl t

theorem insertKind_files (hnl : IsLineBreak nl) (hpaths : ∀ j ∈ l, j.path ≠ [] ∧ Unmarked j.path)
    (hneat : Neat t) (kind : ItemKind) (hnone : ∀ j ∈ l, j.kind = kind → locate? j t = none) :
    Keeps ((l.filter (·.kind = kind)).map key) t (insertKind nl l t kind) ∧
      ∀ j ∈ l, j.kind = kind → Filed j (insertKind nl l t kind) := by
  have hmem : ∀ j ∈ l.filter (·.kind = kind), j ∈ l ∧ j.kind = kind := by
    intro j hj
    obtain ⟨hj, hkind⟩ := List.mem_filter.mp hj
    exact ⟨hj, of_decide_eq_true hkind⟩
  have hpaths' : ∀ j ∈ l.filter (·.kind = kind), j.path ≠ [] ∧ Unmarked j.path :=
    fun j hj => hpaths j (hmem j hj).1
  unfold insertKind
  split
  · next hlines =>
    refine ⟨Keeps.refl hneat _, fun j hj hkind => ?_⟩
    -- without lines there are no items of the kind
    have hitems : items (linesOf (filteredLine nl) l kind) = l.filter (·.kind = kind) :=
      items_filteredLines hnl hpaths'
    rw [hlines, items_eq_nil_of_notMem List.not_mem_nil] at hitems
    have hin : j ∈ l.filter (·.kind = kind) := List.mem_filter.mpr ⟨hj, decide_eq_true hkind⟩
    rw [← hitems] at hin
    cases hin
  · next hlines =>
    have hne : l.filter (·.kind = kind) ≠ [] := fun hnil => hlines (by unfold linesOf; rw [hnil]; rfl)
    have hins : Inserted nl (linesOf (filteredLine nl) l kind) t
        (insert (takeOpening? kind.element) (linesOf (filteredLine nl) l kind) nl t) :=
      inserted_insert takesPiece_takeOpening? _ nl t
    refine ⟨(hins.edited hnl hne hpaths').keeps hneat, fun j hj hkind => ?_⟩
    exact hins.filed hnl hpaths' hneat (List.mem_filter.mpr ⟨hj, decide_eq_true hkind⟩)
      (hnone j hj hkind)

/-- All new items are filed. -/
theorem insertItems_files (hnl : IsLineBreak nl) (hpaths : ∀ j ∈ l, j.path ≠ [] ∧ Unmarked j.path)
    (hneat : Neat t) (hnone : ∀ j ∈ l, locate? j t = none) :
    Keeps (l.map key) t (insertItems (filteredLine nl) l nl t) ∧
      ∀ j ∈ l, Filed j (insertItems (filteredLine nl) l nl t) := by
  have hkind : ∀ {kind : ItemKind} {j : ProjectItem}, j.kind ≠ kind →
      j.key ∉ (l.filter (·.kind = kind)).map key := by
    intro kind j hj hmem
    obtain ⟨j', hj', hkey⟩ := List.mem_map.mp hmem
    have hkind' := of_decide_eq_true (List.mem_filter.mp hj').2
    exact hj (kind_eq_of_key_eq hkey.symm ▸ hkind')
  obtain ⟨hfirst, hcompile⟩ := insertKind_files hnl hpaths hneat .compile fun j hj _ => hnone j hj
  obtain ⟨hsecond, hinclude⟩ := insertKind_files hnl hpaths hfirst.neat .include_ fun j hj hj' =>
    hfirst.unlisted j (hkind (by rw [hj']; decide)) (hnone j hj)
  have hsub : ∀ kind, (l.filter (·.kind = kind)).map key ⊆ l.map key :=
    fun kind => (List.filter_sublist.map key).subset
  refine ⟨(hfirst.trans hsecond).mono (List.append_subset.mpr ⟨hsub _, hsub _⟩), fun j hj => ?_⟩
  cases hj' : j.kind with
  | compile => exact hsecond.filed j (hkind (by rw [hj']; decide)) (hcompile j hj hj')
  | include_ => exact hinclude j hj hj'

end

/-! ## The declaration -/

theorem takesPiece_takeFilter? :
    TakesPiece fun t => ((takeFilter? t).map Prod.snd).map fun rest => ((), rest) := by
  intro t _ rest h
  obtain ⟨rest', hmap, heq⟩ := Option.map_eq_some_iff.mp h
  obtain ⟨⟨path, rest''⟩, hread, rfl⟩ := Option.map_eq_some_iff.mp hmap
  obtain ⟨-, rfl⟩ := Prod.mk.inj heq
  obtain ⟨source, hne, ht, hsource⟩ := takesPiece_takeElement? t path _ hread
  exact ⟨source, hne, ht, fun s => by
    have hfilter : takeFilter? (source ++ s) = some (path, s) := hsource s
    simp [hfilter]⟩

theorem declared_declaration (hnl : IsLineBreak nl) : Declared (declaration nl) := by
  unfold Declared
  rcases hnl with rfl | rfl
  · decide +kernel
  · decide +kernel

theorem items_declaration (hnl : IsLineBreak nl) : items (declaration nl) = [] := by
  rcases hnl with rfl | rfl
  · exact findAll_eq_nil_of_fails (by decide +kernel)
  · exact findAll_eq_nil_of_fails (by decide +kernel)

theorem declared_append {a x b : Text} (ha : Neat a) (hx : Neat x) (hblock : Block x)
    (h : Declared x) : Declared (a ++ (x ++ b)) := by
  have hname := isName_of_mem filter_mem
  have hpiece : TakesPiece takeFilter? := takesPiece_takeElement?
  have hback : Parts takeFilter? x b :=
    parts_takeElement? (hx _ filter_mem) (uncrossed_of_sealed hname hblock.isSealed b)
  have hfront : Parts takeFilter? a (x ++ b) :=
    parts_takeElement? (ha _ filter_mem) (uncrossed_of_fenced hname (hblock.fenced_append b) a)
  unfold Declared at h ⊢
  rw [hpiece.findAll_append hfront, hpiece.findAll_append hback]
  exact List.mem_append_right _ (List.mem_append_left _ h)

/-- The filter is declared by an edit that is about no item. -/
theorem declareFilter_declares (hnl : IsLineBreak nl) (hneat : Neat t) :
    Edited [] t (declareFilter nl t) ∧ Declared (declareFilter nl t) := by
  unfold declareFilter
  split
  · next hdeclared => exact ⟨.inl rfl, hdeclared⟩
  · have hins : Inserted nl (declaration nl) t
        (insert (fun t => (takeFilter? t).map Prod.snd) (declaration nl) nl t) :=
      inserted_insert takesPiece_takeFilter? _ nl t
    have hrep := replaces_declaration hnl
    have hitems : ∀ j ∈ items [] ++ items (declaration nl), j.key ∈ ([] : List (ItemKind × Text)) := by
      rw [items_eq_nil_of_notMem List.not_mem_nil, items_declaration hnl]
      nofun
    show Edited [] t (insert _ (declaration nl) nl t) ∧ Declared (insert _ (declaration nl) nl t)
    generalize insert (fun t => (takeFilter? t).map Prod.snd) (declaration nl) nl t = out at hins ⊢
    obtain ⟨a, x, b, rfl, rfl, rfl | rfl, hseam⟩ := hins
    · have ha : Neat a := fun element hmem => hseam.tidy_left (hneat element hmem)
      exact ⟨.inr ⟨a, [], _, b, rfl, rfl, hseam, hrep, hitems⟩,
        declared_append ha hrep.neat hrep.block (declared_declaration hnl)⟩
    · have ha : Neat a := fun element hmem => hseam.tidy_left (hneat element hmem)
      have hgroup := hrep.itemGroup hnl
      refine ⟨.inr ⟨a, [], _, b, rfl, rfl, hseam, hgroup, ?_⟩,
        declared_append ha hgroup.neat hgroup.block ?_⟩
      · rwa [items_itemGroup hnl hrep.neat.tidy]
      · rw [itemGroup_eq]
        exact declared_append (neat_groupStart hnl) hrep.neat hrep.block (declared_declaration hnl)

/-! ## The whole patch -/

/-- The text with the filter declared and the items in it. -/
def patch (nl : Text) (wanted : List ProjectItem) (t : Text) : Text :=
  insertItems (filteredLine nl) (assignAll nl wanted (declareFilter nl t)).2 nl
    (assignAll nl wanted (declareFilter nl t)).1

theorem addFilters?_eq (t : Text) (projectDir : Path) (files : List Path) :
    addFilters? t projectDir files =
      if patch (lineBreak t) (unseen [] (ofFiles projectDir files)) t = t then none
      else some (patch (lineBreak t) (unseen [] (ofFiles projectDir files)) t) := by
  have hwrite : (fun i => "    ".toList ++ filteredElement i (lineBreak t) ++ lineBreak t) =
      filteredLine (lineBreak t) := by
    funext i
    exact List.append_assoc _ _ _
  unfold addFilters? patch
  dsimp only
  rw [hwrite]

/-- Patching reaches its aim: the filter is declared and all items are filed. -/
theorem patch_files {wanted : List ProjectItem} (hnl : IsLineBreak nl) (hneat : Neat t)
    (hnodup : (wanted.map key).Nodup) (hpaths : ∀ i ∈ wanted, i.path ≠ [] ∧ Unmarked i.path)
    (hfits : ∀ i ∈ wanted, Fits i t) :
    Declared (patch nl wanted t) ∧ ∀ i ∈ wanted, Filed i (patch nl wanted t) := by
  obtain ⟨hdeclare, hdeclared⟩ := declareFilter_declares hnl hneat
  have hfirst := hdeclare.keeps hneat
  obtain ⟨hsecond, hmissing, hall⟩ := assignAll_files hnl hfirst.neat hnodup fun i hi =>
    hfirst.fits i List.not_mem_nil (hfits i hi)
  have hsub := assignAll_sublist nl wanted (declareFilter nl t)
  obtain ⟨hthird, hnew⟩ := insertItems_files hnl (fun i hi => hpaths i (hsub.subset hi))
    hsecond.neat hmissing
  refine ⟨hthird.declared (hsecond.declared hdeclared), fun i hi => ?_⟩
  rcases hall i hi with hin | hfiled
  · exact hnew i hin
  · refine hthird.filed i (fun hmem => ?_) hfiled
    obtain ⟨j, hj, hkey⟩ := List.mem_map.mp hmem
    obtain ⟨o, ho, -⟩ := hfiled
    rw [← locate?_congr hkey, hmissing j hj] at ho
    cases ho

/-- Where the filter is declared and all items are filed, patching changes nothing. -/
theorem patch_eq_self {wanted : List ProjectItem} (hdeclared : Declared t)
    (hfiled : ∀ i ∈ wanted, Filed i t) (nl : Text) : patch nl wanted t = t := by
  have hdeclare : declareFilter nl t = t := if_pos hdeclared
  have hassign : assignAll nl wanted t = (t, []) := by
    induction wanted with
    | nil => rfl
    | cons i wanted ih =>
        rw [List.forall_mem_cons] at hfiled
        obtain ⟨o, ho, hset⟩ := hfiled.1
        rw [assignAll, assign?_of_settled ho hset nl]
        exact ih hfiled.2
  unfold patch
  rw [hdeclare, hassign]
  rfl

/-- A filters file is patched once and for all. Where the openings keep to their lines and the files
have paths, and each of them that is listed can be filed, the patched file has the filter declared and
all files in it, and patching it again changes nothing. -/
theorem addFilters?_of_patched {projectDir : Path} {files : List Path} (hneat : Neat t)
    (hpaths : ∀ i ∈ ofFiles projectDir files, i.path ≠ [] ∧ Unmarked i.path)
    (hfits : ∀ i ∈ ofFiles projectDir files, Fits i t)
    (h : addFilters? t projectDir files = some out) :
    addFilters? out projectDir files = none ∧ Declared out ∧
      ∀ i ∈ ofFiles projectDir files, Filed i out := by
  have hwanted : ∀ i ∈ unseen [] (ofFiles projectDir files), i ∈ ofFiles projectDir files :=
    fun i hi => (of_mem_unseen hi).1
  obtain ⟨hdeclared, hfiled⟩ := patch_files (isLineBreak_lineBreak t) hneat nodup_unseen
    (fun i hi => hpaths i (hwanted i hi)) fun i hi => hfits i (hwanted i hi)
  have hout : out = patch (lineBreak t) (unseen [] (ofFiles projectDir files)) t := by
    rw [addFilters?_eq] at h
    split at h
    · cases h
    · exact (Option.some.inj h).symm
  rw [← hout] at hdeclared hfiled
  refine ⟨?_, hdeclared, fun i hi => ?_⟩
  · rw [addFilters?_eq, if_pos (patch_eq_self hdeclared hfiled _)]
  · obtain ⟨j, hj, hkey⟩ := List.mem_map.mp (key_mem_unseen hi List.not_mem_nil)
    obtain ⟨o, ho, hset⟩ := hfiled j hj
    exact ⟨o, locate?_congr hkey ▸ ho, kind_eq_of_key_eq hkey ▸ hset⟩

/-- A filters file with an item that closes itself, one in another filter and one without any. -/
def mixedFilters : Text :=
  "<Project>\n  <ItemGroup>\n    <ClCompile Include=\"A.cpp\" />\n" ++
  "    <ClCompile Include=\"B.cpp\">\n      <Filter>Source</Filter>\n    </ClCompile>\n" ++
  "    <ClInclude Include=\"C.h\">\n    </ClInclude>\n  </ItemGroup>\n</Project>\n"

/-- The items of the file and one more. -/
def mixedFiles : List Path :=
  ["/proj/A.cpp", "/proj/B.cpp", "/proj/C.h", "/proj/D.h"]

theorem addFilters?_of_patched_mixed :
    Neat mixedFilters ∧ (∀ i ∈ ofFiles "/proj" mixedFiles, i.path ≠ [] ∧ Unmarked i.path) ∧
      (∀ i ∈ ofFiles "/proj" mixedFiles, Fits i mixedFilters) ∧
      ∃ out, addFilters? mixedFilters "/proj" mixedFiles = some out ∧
        addFilters? out "/proj" mixedFiles = none := by
  have hfiles : ofFiles "/proj" mixedFiles =
      [⟨.compile, "A.cpp"⟩, ⟨.compile, "B.cpp"⟩, ⟨.include_, "C.h"⟩, ⟨.include_, "D.h"⟩] := by
    decide +kernel
  have hpaths : ∀ i ∈ ofFiles "/proj" mixedFiles, i.path ≠ [] ∧ Unmarked i.path := by
    rw [hfiles]
    simp [Unmarked]
  -- at once, as each part reads the same text
  obtain ⟨htidy, hfileable, hsome⟩ : fileElements.all (tidy · mixedFilters) = true ∧
      ((ofFiles "/proj" mixedFiles).all fun i =>
        (locate? i mixedFilters).all fun o => fileable i.kind o.rest) = true ∧
      addFilters? mixedFilters "/proj" mixedFiles ≠ none := by
    decide +kernel
  have hneat : Neat mixedFilters := neat_of_check htidy
  have hfits : ∀ i ∈ ofFiles "/proj" mixedFiles, Fits i mixedFilters :=
    fun i hi => fits_of_check (List.all_eq_true.mp hfileable i hi)
  obtain ⟨out, hout⟩ := Option.ne_none_iff_exists'.mp hsome
  exact ⟨hneat, hpaths, hfits, out, hout, (addFilters?_of_patched hneat hpaths hfits hout).1⟩

/-- A filters file with an item whose opening and closing tag meet. -/
def flatFilters : Text :=
  "<Project>\n  <ItemGroup>\n    <ClCompile Include=\"A.cpp\"></ClCompile>\n  </ItemGroup>\n</Project>\n"

/-- The filter of an item whose tags share a line goes in front of that line, out of the item. So it
is not found again, and patching puts in another one every time. -/
theorem flat_item_filed_again :
    Neat flatFilters ∧
      (∀ i ∈ ofFiles "/proj" ["/proj/A.cpp".toList], i.path ≠ [] ∧ Unmarked i.path) ∧
      ∃ out, addFilters? flatFilters "/proj" ["/proj/A.cpp".toList] = some out ∧
        addFilters? out "/proj" ["/proj/A.cpp".toList] ≠ none := by
  have hfiles : ofFiles "/proj" ["/proj/A.cpp".toList] = [⟨.compile, "A.cpp"⟩] := by decide +kernel
  have hboth : fileElements.all (tidy · flatFilters) = true ∧
      ((addFilters? flatFilters "/proj" ["/proj/A.cpp".toList]).bind
        fun out => addFilters? out "/proj" ["/proj/A.cpp".toList]) ≠ none := by
    decide +kernel
  refine ⟨neat_of_check hboth.1, ?_, ?_⟩
  · rw [hfiles]
    simp [Unmarked]
  · obtain ⟨again, hagain⟩ := Option.ne_none_iff_exists'.mp hboth.2
    obtain ⟨out, hout, hsome⟩ := Option.bind_eq_some_iff.mp hagain
    exact ⟨out, hout, Option.ne_none_iff_exists'.mpr ⟨again, hsome⟩⟩

end Registrar.ProjectFile
