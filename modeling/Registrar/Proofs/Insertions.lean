import Registrar.ProjectFile.Filters
import Registrar.Proofs.ElementOpenings

/-!
# Insertions

Lines go into a project file in front of a tag that closes an item group or the project
(`insert_places`). The place is the start of a line or of that tag, so openings that keep to a line
are not divided, and what is put in consists of whole tags: a tidy text stays tidy
(`Inserted.tidy`), and its items are those it had and those of the lines (`Inserted.items_perm`).
-/

namespace Registrar.ProjectFile

open Text

variable {element nl : Text}

/-! ## The place of an insertion -/

/-- Lines in a group of their own. -/
def itemGroup (nl lines : Text) : Text :=
  "  <ItemGroup>" ++ nl ++ lines ++ "  </ItemGroup>" ++ nl

/-- The tags in front of which something is put in. -/
def closers : List Text :=
  ["</ItemGroup>", "</Project>"]

/-- Lines go in front of the line on which a group closes, or as a group in front of the line on which the
project closes, or as a group at the end of a text that closes no project. -/
theorem insert_places {probe : Text → Option Text}
    (hprobe : TakesPiece fun t => (probe t).map fun rest => ((), rest)) (lines nl t : Text) :
    (∃ before after, t = before ++ ("</ItemGroup>" ++ after) ∧
        insert probe lines nl t = insertBeforeLastLine before lines ++ ("</ItemGroup>" ++ after)) ∨
      (∃ before after, t.cutLast? "</Project>" = some (before, after) ∧
        insert probe lines nl t =
          insertBeforeLastLine before (itemGroup nl lines) ++ ("</Project>" ++ after)) ∨
      t.cutLast? "</Project>" = none ∧ insert probe lines nl t = t ++ itemGroup nl lines := by
  unfold insert
  cases hinto : insertIntoGroup? probe lines t with
  | some out =>
      unfold insertIntoGroup? at hinto
      obtain ⟨found, hfound, hinto⟩ := Option.bind_eq_some_iff.mp hinto
      obtain ⟨⟨inside, after⟩, hcut, hout⟩ := Option.bind_eq_some_iff.mp hinto
      obtain rfl := Option.some.inj hout
      obtain ⟨htext, -, -, -, -⟩ := hprobe.of_findFirst? hfound
      refine .inl ⟨found.before ++ found.source ++ inside, after, ?_, List.append_assoc _ _ _⟩
      rw [htext, eq_of_cut? hcut]
      simp only [List.append_assoc]
  | none =>
      unfold insertNewGroup
      cases hcut : t.cutLast? "</Project>" with
      | none => exact .inr (.inr ⟨rfl, rfl⟩)
      | some found => exact .inr (.inl ⟨found.1, found.2, rfl, List.append_assoc _ _ _⟩)

/-- In each case the place is in front of the line of a closing tag, or the end of the text. -/
theorem insert_cases {probe : Text → Option Text}
    (hprobe : TakesPiece fun t => (probe t).map fun rest => ((), rest)) (lines nl t : Text) :
    (∃ before closer after x, closer ∈ closers ∧ (x = lines ∨ x = itemGroup nl lines) ∧
        t = before ++ (closer ++ after) ∧
        insert probe lines nl t = insertBeforeLastLine before x ++ (closer ++ after)) ∨
      insert probe lines nl t = t ++ itemGroup nl lines := by
  rcases insert_places hprobe lines nl t with
    ⟨before, after, htext, hinsert⟩ | ⟨before, after, hcut, hinsert⟩ | ⟨-, hinsert⟩
  · exact .inl ⟨before, "</ItemGroup>", after, lines, List.mem_cons_self, .inl rfl, htext, hinsert⟩
  · exact .inl ⟨before, "</Project>", after, itemGroup nl lines,
      List.mem_cons_of_mem _ List.mem_cons_self, .inr rfl, eq_of_cutLast? hcut, hinsert⟩
  · exact .inr hinsert

theorem fenced_closer {closer : Text} (h : closer ∈ closers) (after : Text) :
    Fenced (closer ++ after) := by
  simp only [closers, List.mem_cons, List.not_mem_nil, or_false] at h
  rcases h with rfl | rfl
  · refine .inr ⟨[], "/ItemGroup>".toList ++ after, isBlank_of_mem_nil, rfl, ?_⟩
    rintro ⟨s, hs⟩
    have hsecond : some 'F' = some 'I' := congrArg (·[1]?) hs
    exact absurd hsecond (by decide)
  · refine .inr ⟨[], "/Project>".toList ++ after, isBlank_of_mem_nil, rfl, ?_⟩
    rintro ⟨s, hs⟩
    have hsecond : some 'F' = some 'P' := congrArg (·[1]?) hs
    exact absurd hsecond (by decide)

/-- A text is put into another one between two parts that meet at a seam. It is the lines themselves
or a group of them. -/
def Inserted (nl lines t out : Text) : Prop :=
  ∃ a x b, t = a ++ b ∧ out = a ++ (x ++ b) ∧ (x = lines ∨ x = itemGroup nl lines) ∧ Seam a b

theorem inserted_insert {probe : Text → Option Text}
    (hprobe : TakesPiece fun t => (probe t).map fun rest => ((), rest)) (lines nl t : Text) :
    Inserted nl lines t (insert probe lines nl t) := by
  rcases insert_cases hprobe lines nl t with
    ⟨before, closer, after, x, hcloser, hx, rfl, hinsert⟩ | hinsert
  · obtain ⟨a, b, rfl, hlines, -, hend⟩ := insertBeforeLastLine_eq before x
    refine ⟨a, x, b ++ (closer ++ after), by simp, ?_, hx, ?_⟩
    · rw [hinsert, hlines]
      simp
    · rcases hend with hend | ⟨rfl, -⟩
      · exact .inl hend
      · exact .inr (fenced_closer hcloser after)
  · exact ⟨t, itemGroup nl lines, [], by simp, by simpa using hinsert, .inr rfl, .inr (.inl rfl)⟩

theorem takesPiece_takeOpening? :
    TakesPiece fun t => (takeOpening? element t).map fun rest => ((), rest) := by
  intro t _ rest h
  obtain ⟨rest', hopening, heq⟩ := Option.map_eq_some_iff.mp h
  obtain ⟨-, rfl⟩ := Prod.mk.inj heq
  obtain ⟨gap, hgap, rfl⟩ := takeOpening?_eq_some_iff.mp hopening
  refine ⟨opening element gap, List.cons_ne_nil _ _, rfl, fun s => ?_⟩
  exact Option.map_eq_some_iff.mpr ⟨s, takeOpening?_eq_some_iff.mpr ⟨gap, hgap, rfl⟩, rfl⟩

/-- The lines for the items of one kind. -/
def linesOf (write : ProjectItem → Text) (items : List ProjectItem) (kind : ItemKind) : Text :=
  (items.filter (·.kind = kind)).flatMap write

/-- The items of the two kinds are put in one after the other. -/
theorem inserted_insertItems (write : ProjectItem → Text) (items : List ProjectItem) (nl t : Text) :
    ∃ mid, Inserted nl (linesOf write items .compile) t mid ∧
      Inserted nl (linesOf write items .include_) mid (insertItems write items nl t) := by
  have hstep : ∀ kind t, Inserted nl (linesOf write items kind) t
      (if linesOf write items kind = [] then t
        else insert (takeOpening? kind.element) (linesOf write items kind) nl t) := by
    intro kind t
    split
    · next hnil => exact ⟨t, [], [], by simp, by simp, .inl hnil.symm, .inr (.inl rfl)⟩
    · exact inserted_insert takesPiece_takeOpening? _ nl t
  exact ⟨_, hstep .compile t, hstep .include_ _⟩

/-! ## Blocks of tags -/

/-- Whole tags, the first of which is not a closing tag. -/
structure Block (x : Text) : Prop where
  opens : ∃ blanks c r, (∀ c ∈ blanks, isBlank c = true) ∧ x = blanks ++ '<' :: c :: r ∧ c ≠ '/'
  isSealed : Sealed x

theorem block_of_opening {kind : ItemKind} {blanks gap rest : Text}
    (hblanks : ∀ c ∈ blanks, isBlank c = true)
    (h : Sealed (blanks ++ (opening kind.element gap ++ rest))) :
    Block (blanks ++ (opening kind.element gap ++ rest)) := by
  obtain ⟨name, hname⟩ := exists_element_eq kind
  refine ⟨⟨blanks, 'C', name ++ (gap ++ "Include=\"") ++ rest, hblanks, ?_, by decide⟩, h⟩
  unfold opening
  rw [hname]
  rfl

theorem Sealed.append_left {x : Text} (h : Sealed x) (a : Text) : Sealed (a ++ x) := by
  obtain ⟨front, tag, blanks, rfl, h⟩ := h
  exact ⟨a ++ front, tag, blanks, by simp, h⟩

theorem Block.fenced_append {x : Text} (hx : Block x) (b : Text) : Fenced (x ++ b) := by
  obtain ⟨blanks, c, r, hblanks, rfl, hc⟩ := hx.opens
  refine .inr ⟨blanks, c :: (r ++ b), hblanks, by simp, ?_⟩
  rintro ⟨s, hs⟩
  exact hc (List.cons.inj hs).1.symm

theorem Block.append {x y : Text} (hx : Block x) (hy : Block y) : Block (x ++ y) := by
  obtain ⟨blanks, c, r, hblanks, rfl, hc⟩ := hx.opens
  exact ⟨⟨blanks, c, r ++ y, hblanks, by simp, hc⟩, hy.isSealed.append_left _⟩

theorem block_flatMap {α : Type} {write : α → Text} {l : List α}
    (hwrite : ∀ i ∈ l, Block (write i)) (hne : l ≠ []) : Block (l.flatMap write) := by
  induction l with
  | nil => exact absurd rfl hne
  | cons i l ih =>
      rw [List.flatMap_cons]
      have hi := hwrite i List.mem_cons_self
      by_cases hl : l = []
      · simpa [hl] using hi
      · exact hi.append (ih (fun j hj => hwrite j (List.mem_cons_of_mem i hj)) hl)

/-- Whole tags written one after the other keep to their lines when each does. -/
theorem tidy_flatMap (hname : IsName element) {α : Type} {write : α → Text} {l : List α}
    (hwrite : ∀ i ∈ l, Block (write i)) (htidy : ∀ i ∈ l, Tidy element (write i)) :
    Tidy element (l.flatMap write) := by
  induction l with
  | nil => exact tidy_of_check rfl
  | cons i l ih =>
      rw [List.forall_mem_cons] at hwrite htidy
      rw [List.flatMap_cons]
      exact htidy.1.append (ih hwrite.2 htidy.2) (uncrossed_of_sealed hname hwrite.1.isSealed _)

theorem items_flatMap {α : Type} {write : α → Text} {l : List α}
    (hwrite : ∀ i ∈ l, Block (write i))
    (htidy : ∀ i ∈ l, ∀ kind : ItemKind, Tidy kind.element (write i)) :
    items (l.flatMap write) = l.flatMap fun i => items (write i) := by
  induction l with
  | nil => simp [items, findAll]
  | cons i l ih =>
      rw [List.forall_mem_cons] at hwrite htidy
      rw [List.flatMap_cons, List.flatMap_cons, ← ih hwrite.2 htidy.2]
      exact items_append htidy.1 fun kind =>
        uncrossed_of_sealed (isName_element kind) hwrite.1.isSealed _

/-- A line break as project files write it. -/
def IsLineBreak (nl : Text) : Prop :=
  nl = "\n" ∨ nl = "\r\n"

theorem isLineBreak_lineBreak (t : Text) : IsLineBreak (lineBreak t) := by
  unfold lineBreak
  split
  · exact .inr rfl
  · exact .inl rfl

theorem IsLineBreak.notMem {nl : Text} (hnl : IsLineBreak nl) : '<' ∉ nl := by
  rcases hnl with rfl | rfl
  · decide
  · decide

/-- The parts of a group around its lines. -/
theorem itemGroup_eq (nl lines : Text) :
    itemGroup nl lines = ("  <ItemGroup>" ++ nl) ++ (lines ++ ("  </ItemGroup>" ++ nl)) := by
  unfold itemGroup
  simp only [List.append_assoc]

theorem sealed_groupStart {nl : Text} (hnl : IsLineBreak nl) :
    Sealed ("  <ItemGroup>" ++ nl) :=
  ⟨"  ", "ItemGroup", nl, rfl, by decide, hnl.notMem, by decide⟩

theorem fenced_groupEnd (nl : Text) : Fenced ("  </ItemGroup>" ++ nl) := by
  refine .inr ⟨"  ", "/ItemGroup>" ++ nl, List.all_eq_true.mp (by decide), rfl, ?_⟩
  rintro ⟨s, hs⟩
  have hsecond : some 'F' = some 'I' := congrArg (·[1]?) hs
  exact absurd hsecond (by decide)

theorem block_itemGroup {nl : Text} (hnl : IsLineBreak nl) (lines : Text) :
    Block (itemGroup nl lines) := by
  refine ⟨⟨"  ", 'I', "temGroup>" ++ nl ++ lines ++ "  </ItemGroup>" ++ nl,
    List.all_eq_true.mp (by decide), rfl, by decide⟩, ?_⟩
  refine ⟨"  <ItemGroup>" ++ nl ++ lines ++ "  ", "/ItemGroup", nl, ?_, by decide, hnl.notMem,
    by decide⟩
  unfold itemGroup
  simp only [List.append_assoc]
  rfl

theorem tidy_groupStart (hnl : IsLineBreak nl) (kind : ItemKind) :
    Tidy kind.element ("  <ItemGroup>" ++ nl) := by
  rcases hnl with rfl | rfl <;> cases kind <;> exact tidy_of_check (by decide)

theorem items_groupStart (hnl : IsLineBreak nl) : items ("  <ItemGroup>" ++ nl) = [] := by
  rcases hnl with rfl | rfl
  · exact findAll_eq_nil_of_fails (by decide)
  · exact findAll_eq_nil_of_fails (by decide)

theorem items_groupEnd (hnl : IsLineBreak nl) : items ("  </ItemGroup>" ++ nl) = [] := by
  rcases hnl with rfl | rfl
  · exact findAll_eq_nil_of_fails (by decide)
  · exact findAll_eq_nil_of_fails (by decide)

theorem tidy_itemGroup {lines : Text} (hnl : IsLineBreak nl) (kind : ItemKind)
    (h : Tidy kind.element lines) : Tidy kind.element (itemGroup nl lines) := by
  have hname := isName_element kind
  have hend : Tidy kind.element ("  </ItemGroup>" ++ nl) := by
    rcases hnl with rfl | rfl <;> cases kind <;> exact tidy_of_check (by decide)
  rw [itemGroup_eq]
  exact (tidy_groupStart hnl kind).append
    (h.append hend (uncrossed_of_fenced hname (fenced_groupEnd nl) lines))
    (uncrossed_of_sealed hname (sealed_groupStart hnl) _)

theorem items_itemGroup {lines : Text} (hnl : IsLineBreak nl)
    (h : ∀ kind : ItemKind, Tidy kind.element lines) : items (itemGroup nl lines) = items lines := by
  rw [itemGroup_eq, items_append (tidy_groupStart hnl) fun kind =>
      uncrossed_of_sealed (isName_element kind) (sealed_groupStart hnl) _,
    items_append h fun kind =>
      uncrossed_of_fenced (isName_element kind) (fenced_groupEnd nl) lines,
    items_groupStart hnl, items_groupEnd hnl, List.nil_append, List.append_nil]

/-! ## What an insertion keeps -/

theorem Tidy.splice (hname : IsName element) {a b x : Text} (h : Tidy element (a ++ b))
    (hseam : Seam a b) (hblock : Block x) (hx : Tidy element x) :
    Tidy element (a ++ (x ++ b)) := by
  have hxb : Tidy element (x ++ b) :=
    hx.append (h.of_suffix (List.suffix_append a b)) (uncrossed_of_sealed hname hblock.isSealed b)
  exact (hseam.tidy_left h).append hxb (uncrossed_of_fenced hname (hblock.fenced_append b) a)

theorem items_splice {a b x : Text} (h : ∀ kind : ItemKind, Tidy kind.element (a ++ b))
    (hseam : Seam a b) (hblock : Block x) (hx : ∀ kind : ItemKind, Tidy kind.element x) :
    items (a ++ (x ++ b)) = items a ++ (items x ++ items b) ∧
      items (a ++ b) = items a ++ items b := by
  have ha : ∀ kind : ItemKind, Tidy kind.element a := fun kind => hseam.tidy_left (h kind)
  refine ⟨?_, items_append ha fun kind => hseam.uncrossed (isName_element kind) (h kind)⟩
  rw [items_append ha fun kind =>
      uncrossed_of_fenced (isName_element kind) (hblock.fenced_append b) a,
    items_append hx fun kind => uncrossed_of_sealed (isName_element kind) hblock.isSealed b]

theorem Inserted.tidy {nl lines t out : Text} (hins : Inserted nl lines t out)
    (hnl : IsLineBreak nl) (hlines : lines = [] ∨ Block lines) {kind : ItemKind}
    (hx : Tidy kind.element lines) (h : Tidy kind.element t) : Tidy kind.element out := by
  obtain ⟨a, x, b, rfl, rfl, rfl | rfl, hseam⟩ := hins
  · rcases hlines with rfl | hblock
    · exact h
    · exact h.splice (isName_element kind) hseam hblock hx
  · exact h.splice (isName_element kind) hseam (block_itemGroup hnl lines)
      (tidy_itemGroup hnl kind hx)

/-- After an insertion a text has its own items and those of the lines. -/
theorem Inserted.items_perm {nl lines t out : Text} (hins : Inserted nl lines t out)
    (hnl : IsLineBreak nl) (hlines : lines = [] ∨ Block lines)
    (hx : ∀ kind : ItemKind, Tidy kind.element lines)
    (h : ∀ kind : ItemKind, Tidy kind.element t) :
    (items out).Perm (items lines ++ items t) := by
  have hperm : ∀ i₁ i₂ : List ProjectItem,
      (i₁ ++ (items lines ++ i₂)).Perm (items lines ++ (i₁ ++ i₂)) := fun i₁ i₂ => by
    rw [← List.append_assoc, ← List.append_assoc]
    exact List.perm_append_comm.append_right i₂
  obtain ⟨a, x, b, rfl, rfl, rfl | rfl, hseam⟩ := hins
  · rcases hlines with rfl | hblock
    · simp [items, findAll]
    · obtain ⟨hout, ht⟩ := items_splice h hseam hblock hx
      rw [hout, ht]
      exact hperm _ _
  · obtain ⟨hout, ht⟩ := items_splice h hseam (block_itemGroup hnl lines)
      fun kind => tidy_itemGroup hnl kind (hx kind)
    rw [hout, ht, items_itemGroup hnl hx]
    exact hperm _ _

end Registrar.ProjectFile
