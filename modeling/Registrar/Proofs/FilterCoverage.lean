import Registrar.Proofs.FilterDocuments

/-!
# Documents that cover what is asked for

The search for an item goes through the whole text of a document. Where all items that are asked for
are those of elements (`Document.Covers`) the search ends at an element (`Covers.locate?_text`), and
pieces that list no item may be put between the elements (`Covers.insert`) and into them
(`Quiet.edit`).
-/

namespace Registrar.ProjectFile

open Text ProjectItem

variable {keys keys' : List (ItemKind × Text)} {nl : Text}

/-! ## Texts without items that are asked for -/

/-- Openings keep to their lines, and none is for an item with one of the keys. -/
structure Quiet (keys : List (ItemKind × Text)) (t : Text) : Prop where
  tidy : ∀ kind : ItemKind, Tidy kind.element t
  unasked : ∀ i ∈ items t, i.key ∉ keys

/-- Whole tags that list no item. -/
structure Inert (x : Text) : Prop where
  block : Block x
  tidy : ∀ kind : ItemKind, Tidy kind.element x
  items_eq : items x = []

theorem Inert.items_append {x : Text} (h : Inert x) (b : Text) : items (x ++ b) = items b := by
  have hitems := ProjectFile.items_append (b := b) h.tidy fun kind =>
    uncrossed_of_sealed (isName_element kind) h.block.isSealed b
  rw [hitems, h.items_eq, List.nil_append]

theorem Quiet.mono {t : Text} (h : Quiet keys t) (hsub : keys' ⊆ keys) : Quiet keys' t :=
  ⟨h.tidy, fun i hi hkey => h.unasked i hi (hsub hkey)⟩

/-- Do openings keep to their lines, without one for an item that has one of the keys? -/
def quiet (keys : List (ItemKind × Text)) (t : Text) : Bool :=
  tidy ItemKind.compile.element t && tidy ItemKind.include_.element t &&
    (items t).all fun i => i.key ∉ keys

theorem quiet_of_check {t : Text} (h : quiet keys t = true) : Quiet keys t := by
  simp only [quiet, Bool.and_eq_true, List.all_eq_true, decide_eq_true_eq] at h
  refine ⟨fun kind => ?_, h.2⟩
  cases kind
  · exact tidy_of_check h.1.1
  · exact tidy_of_check h.1.2

theorem quiet_of_notMem {t : Text} (h : '<' ∉ t) : Quiet keys t := by
  refine ⟨fun kind gap rest hgap hsuffix => ?_, by rw [items_eq_nil_of_notMem h]; nofun⟩
  exact absurd (hsuffix.mem List.mem_cons_self) h

/-- A closing tag opens nothing. -/
theorem quiet_closing {t : Text} (h : '<' ∉ t) : Quiet keys ('<' :: '/' :: t) := by
  have hnot : ∀ (kind : ItemKind) (gap rest : Text),
      ¬ opening kind.element gap ++ rest <:+ '<' :: '/' :: t := by
    intro kind gap rest hsuffix
    obtain ⟨name, hname⟩ := exists_element_eq kind
    have heq := eq_of_cons_suffix (a := []) List.not_mem_nil (by simp [h]) hsuffix
    rw [hname] at heq
    exact absurd (List.cons.inj heq).1 (by decide)
  refine ⟨fun kind gap rest hgap hsuffix => absurd hsuffix (hnot kind gap rest), ?_⟩
  have hitems : items ('<' :: '/' :: t) = [] := by
    refine takesPiece_takeItem?.findAll_eq_nil_iff.mpr fun u hu => ?_
    rw [Option.eq_none_iff_forall_ne_some]
    rintro ⟨i, rest⟩ hsome
    obtain ⟨-, -, gap, -, rfl⟩ := takeElement?_eq_some_iff.mp (takeItem?_eq_some_iff.mp hsome)
    exact hnot i.kind gap _ hu
  rw [hitems]
  nofun

theorem quiet_append {a b : Text} (ha : Quiet keys a) (hb : Quiet keys b)
    (h : ∀ kind : ItemKind, Uncrossed kind.element a b) : Quiet keys (a ++ b) := by
  refine ⟨fun kind => (ha.tidy kind).append (hb.tidy kind) (h kind), fun i hi => ?_⟩
  rw [items_append ha.tidy h] at hi
  exact (List.mem_append.mp hi).elim (ha.unasked i) (hb.unasked i)

theorem locate?_eq_none_of_quiet {t : Text} {i : ProjectItem} (h : Quiet keys t)
    (hkey : i.key ∈ keys) : locate? i t = none := by
  rw [locate?_eq_none_iff]
  intro hmem
  obtain ⟨j, hj, heq⟩ := List.mem_map.mp hmem
  exact h.unasked j hj (heq ▸ hkey)

/-- Tags that list no item, or nothing, may give way to others. -/
theorem Quiet.edit {a old x b : Text} (h : Quiet keys (a ++ (old ++ b)))
    (hseam : Seam a (old ++ b)) (hold : old = [] ∨ Inert old) (hx : Inert x) :
    Quiet keys (a ++ (x ++ b)) := by
  have ha : ∀ kind : ItemKind, Tidy kind.element a := fun kind => hseam.tidy_left (h.tidy kind)
  have hb : ∀ kind : ItemKind, Tidy kind.element b := fun kind =>
    (h.tidy kind).of_suffix ((List.suffix_append old b).trans (List.suffix_append a _))
  have hxb : ∀ kind : ItemKind, Tidy kind.element (x ++ b) := fun kind =>
    (hx.tidy kind).append (hb kind) (uncrossed_of_sealed (isName_element kind) hx.block.isSealed b)
  have haxb : ∀ kind : ItemKind, Uncrossed kind.element a (x ++ b) :=
    fun kind => uncrossed_of_fenced (isName_element kind) (hx.block.fenced_append b) a
  have hsame : items (old ++ b) = items b := by
    rcases hold with rfl | hold
    · rfl
    · exact hold.items_append b
  have hunasked := h.unasked
  rw [items_append ha fun kind => hseam.uncrossed (isName_element kind) (h.tidy kind), hsame]
    at hunasked
  refine ⟨fun kind => (ha kind).append (hxb kind) (haxb kind), ?_⟩
  rwa [items_append ha haxb, hx.items_append]

theorem Quiet.insert {u v x : Text} (h : Quiet keys (u ++ v)) (hseam : Seam u v) (hx : Inert x) :
    Quiet keys (u ++ (x ++ v)) := by
  have h' : Quiet keys (u ++ ([] ++ v)) := h
  exact h'.edit hseam (.inl rfl) hx

/-- What is put in closes a group or the project only if it does so itself. -/
theorem closer_not_infix_edit {a old x b closer : Text} (hcloser : closer ∈ closers)
    (h : ¬ closer <:+: a ++ (old ++ b)) (hblock : Block x) (hx : ¬ closer <:+: x) :
    ¬ closer <:+: a ++ (x ++ b) := by
  obtain ⟨c, tag, heq, -, hangle, hclose, hline⟩ := closer_eq hcloser
  rw [heq] at h hx ⊢
  intro hin
  have hseam : Seam a ((x ++ b) ++ []) := by
    rw [List.append_nil]
    exact .inr (hblock.fenced_append b)
  rcases tag_infix_of_seam hangle hclose hline hseam hin with hin | hin
  · exact h (hin.trans (List.prefix_append a _).isInfix)
  rcases tag_infix_of_sealed hangle hclose hblock.isSealed hin with hin | hin
  · exact hx hin
  · exact h (hin.trans ((List.suffix_append old b).trans (List.suffix_append a _)).isInfix)

/-! ## Pieces that list no item -/

theorem inert_filterTag {value : Text} (h : '<' ∉ value) : Inert (filterTag value) where
  block := ⟨⟨[], 'F', "ilter>" ++ (value ++ "</Filter>"), isBlank_of_mem_nil, rfl, by decide⟩,
    sealed_filterTag value⟩
  tidy := (neat_filterTag h).tidy
  items_eq := items_filterTag h

theorem inert_filterLine (hnl : IsLineBreak nl) : Inert (filterLine nl) :=
  ⟨(replaces_filterLine hnl).block, (replaces_filterLine hnl).neat.tidy, items_filterLine hnl⟩

theorem inert_declaration (hnl : IsLineBreak nl) : Inert (declaration nl) :=
  ⟨(replaces_declaration hnl).block, (replaces_declaration hnl).neat.tidy, items_declaration hnl⟩

theorem Inert.itemGroup {lines : Text} (hnl : IsLineBreak nl) (h : Inert lines) :
    Inert (itemGroup nl lines) :=
  ⟨block_itemGroup hnl lines, fun kind => tidy_itemGroup hnl kind (h.tidy kind),
    (items_itemGroup hnl h.tidy).trans h.items_eq⟩

/-! ## The item of an element -/

namespace Element

variable {e : Element} {j : ProjectItem}

/-- A path that is started comes to its end, and no child is an item that is asked for. -/
structure Sound (keys : List (ItemKind × Text)) (e : Element) : Prop where
  path : ∀ gap rest, Gap gap → e.start = opening e.kind.element gap ++ rest → '"' ∈ rest
  children : ∀ body ∈ e.body, Quiet keys body.1

theorem Sound.mono (h : e.Sound keys) (hsub : keys' ⊆ keys) : e.Sound keys' :=
  ⟨h.path, fun body hbody => (h.children body hbody).mono hsub⟩

/-- The opening tag up to the path is read as the item. -/
theorem start_of_item? (h : e.item? = some j) :
    takeItem? e.start = some (j, e.attributes) := by
  unfold item? at h
  obtain ⟨⟨i, rest⟩, hread, rfl⟩ := Option.map_eq_some_iff.mp h
  unfold attributes
  rw [hread]
  rfl

theorem exists_opening_of_item? (h : e.item? = some j) :
    j.path ≠ [] ∧ '"' ∉ j.path ∧ ∃ gap, Gap gap ∧
      e.start = opening j.kind.element gap ++ (j.path ++ '"' :: e.attributes) :=
  takeElement?_eq_some_iff.mp (takeItem?_eq_some_iff.mp (start_of_item? h))

/-- An element opens with its own name. -/
theorem kind_eq_of_start {kind : ItemKind} {gap rest : Text}
    (h : e.start = opening kind.element gap ++ rest) : kind = e.kind := by
  have hfourth : (e.kind.element ++ e.tag)[2]? =
      (kind.element ++ (gap ++ "Include=\"") ++ rest)[2]? :=
    congrArg (·[2]?) (List.cons.inj h).2
  cases hkind : e.kind <;> cases kind
  · rfl
  · rw [hkind] at hfourth
    have hletter : some 'C' = some 'I' := hfourth
    exact absurd hletter (by decide)
  · rw [hkind] at hfourth
    have hletter : some 'I' = some 'C' := hfourth
    exact absurd hletter (by decide)
  · rfl

theorem kind_of_item? (h : e.item? = some j) : j.kind = e.kind := by
  obtain ⟨-, -, gap, -, hstart⟩ := exists_opening_of_item? h
  exact kind_eq_of_start hstart

theorem path_of_item? (h : e.item? = some j) (gap rest : Text) (hgap : Gap gap)
    (hstart : e.start = opening e.kind.element gap ++ rest) : '"' ∈ rest := by
  obtain ⟨-, -, gap', hgap', hstart'⟩ := exists_opening_of_item? h
  obtain ⟨-, -, rfl⟩ := opening_inj (isName_element _) (isName_element _) hgap hgap'
    (hstart.symm.trans hstart')
  simp

theorem Whole.closed_start (h : e.Whole) (hsound : e.Sound keys) (kind : ItemKind) :
    Closed kind.element e.start := by
  intro gap rest hgap hsuffix
  have hstart : e.start = opening kind.element gap ++ rest :=
    congrArg ('<' :: ·) (eq_of_cons_suffix (a := []) List.not_mem_nil h.notMem_start hsuffix).symm
  obtain rfl := kind_eq_of_start hstart
  exact hsound.path gap rest hgap hstart

/-- What ends an opening tag is no part of an opening. -/
theorem uncrossed_start (e : Element) (kind : ItemKind) :
    Uncrossed kind.element e.start e.finish := by
  intro u gap rest hu hne hgap heq
  rcases append_eq_append_cases heq with ⟨r, hr, -⟩ | ⟨s, hs, ho, hfinish⟩
  · exact ⟨r, hr⟩
  exfalso
  obtain ⟨c, s, rfl⟩ := List.exists_cons_of_ne_nil hs
  have hc : c = '/' ∨ c = '>' := by
    unfold finish at hfinish
    cases hbody : e.body with
    | none =>
        rw [hbody] at hfinish
        exact .inl (List.cons.inj hfinish).1.symm
    | some body =>
        rw [hbody] at hfinish
        exact .inr (List.cons.inj hfinish).1.symm
  have hmem : c ∈ opening kind.element gap := ho ▸ List.mem_append_right u List.mem_cons_self
  rcases hc with rfl | rfl
  · exact notMem_opening (isName_element kind) (by decide) (by decide)
      (fun hin => absurd (hgap.2 _ hin) (by decide)) hmem
  · exact notMem_opening (isName_element kind) (by decide) (by decide)
      (fun hin => absurd (hgap.2 _ hin) (by decide)) hmem

/-- Behind its opening tag an element lists nothing that is asked for. -/
theorem Sound.quiet_finish (hsound : e.Sound keys) (h : e.Whole) : Quiet keys e.finish := by
  unfold finish
  cases hbody : e.body with
  | none =>
      have hend : '<' ∉ ("/>" : Text) := by decide
      exact quiet_of_notMem hend
  | some body =>
      obtain ⟨children, blanks⟩ := body
      have hclosing : "</" ++ e.kind.element ++ blanks ++ ">" =
          '<' :: '/' :: (e.kind.element ++ blanks ++ ['>']) := rfl
      have hfence := fenced_closing e.kind (blanks ++ ['>'])
      rw [← List.append_assoc] at hfence
      dsimp only
      rw [hclosing]
      refine quiet_append (a := ['>']) (quiet_of_notMem (by decide)) ?_ ?_
      · exact quiet_append (hsound.children _ hbody) (quiet_closing (h.notMem_closing hbody))
          fun kind => uncrossed_of_fenced (isName_element kind) hfence children
      · intro kind u gap rest hu hne _ heq
        obtain ⟨c, u, rfl⟩ := List.exists_cons_of_ne_nil hne
        have hmem := hu.mem List.mem_cons_self
        rw [(List.cons.inj heq).1] at hmem
        exact absurd hmem (by decide)

theorem Whole.notMem_attributes (h : e.Whole) : '<' ∉ e.attributes := by
  cases hread : takeItem? e.start with
  | none =>
      unfold attributes
      rw [hread]
      exact List.not_mem_nil
  | some found =>
      have hitem : e.item? = some found.1 := by
        unfold item?
        rw [hread]
        rfl
      obtain ⟨source, hne, hstart, -⟩ := takesPiece_takeItem? _ _ _ (start_of_item? hitem)
      obtain ⟨c, source, rfl⟩ := List.exists_cons_of_ne_nil hne
      have htail : e.kind.element ++ e.tag = source ++ e.attributes := (List.cons.inj hstart).2
      exact fun hmem => h.notMem_start (htail ▸ List.mem_append_right source hmem)

/-- An opening tag lists its item only. -/
theorem Whole.items_start (h : e.Whole) : items e.start = e.item?.toList := by
  unfold items
  cases hitem : e.item? with
  | none =>
      have hread : takeItem? e.start = none := Option.map_eq_none_iff.mp hitem
      exact (findAll_of_none hread).trans (items_eq_nil_of_notMem h.notMem_start)
  | some j =>
      obtain ⟨source, hne, hstart, hread⟩ := takesPiece_takeItem? _ _ _ (start_of_item? hitem)
      rw [hstart, TakesPiece.findAll_piece hne hread]
      exact congrArg (j :: ·) (items_eq_nil_of_notMem h.notMem_attributes)

/-- The item of an element is found in its opening tag. -/
theorem locate?_text_of_item? {i : ProjectItem} (h : e.item? = some j) (hkey : j.key = i.key)
    (rest : Text) :
    ∃ source, e.start = source ++ e.attributes ∧ locate? i (e.text ++ rest) =
      some ⟨[], source, j, e.attributes ++ (e.finish ++ rest)⟩ := by
  obtain ⟨source, hne, hstart, hread⟩ := takesPiece_takeItem? _ _ _ (start_of_item? h)
  have htext : e.text ++ rest = source ++ (e.attributes ++ (e.finish ++ rest)) := by
    unfold text
    rw [hstart]
    simp only [List.append_assoc]
  refine ⟨source, hstart, ?_⟩
  unfold locate?
  rw [htext, TakesPiece.findFirst?_piece hne hread, if_pos (decide_eq_true hkey)]

/-- An element for another item is passed over. -/
theorem locate?_text_of_ne {i : ProjectItem} (hwhole : e.Whole) (hsound : e.Sound keys)
    (hkey : i.key ∈ keys) (h : ∀ j, e.item? = some j → j.key ≠ i.key) (rest : Text) :
    locate? i (e.text ++ rest) = (locate? i rest).map (·.shift e.text) := by
  have hclosed : ∀ kind : ItemKind, Closed kind.element e.start := hwhole.closed_start hsound
  have hcross : ∀ kind : ItemKind, Uncrossed kind.element e.start e.finish := e.uncrossed_start
  have hquiet := hsound.quiet_finish hwhole
  have hparts : Parts takeItem? e.text rest := parts_takeItem? fun kind =>
    ((hclosed kind).append (hquiet.tidy kind).closed (hcross kind)).parts
      (uncrossed_of_sealed (isName_element kind) hwhole.sealed_text rest)
  refine takesPiece_takeItem?.findFirst?_append_of_none hparts ?_
  show locate? i e.text = none
  rw [locate?_eq_none_iff]
  unfold text
  rw [items_append_of_closed hclosed hcross, hwhole.items_start]
  intro hmem
  obtain ⟨j, hj, heq⟩ := List.mem_map.mp hmem
  rcases List.mem_append.mp hj with hj | hj
  · exact h j (by simpa using hj) heq
  · exact hquiet.unasked j hj (heq ▸ hkey)

end Element

/-! ## Documents that cover what is asked for -/

namespace Document

/-- All items with the keys are items of elements. -/
def Covers (keys : List (ItemKind × Text)) : Document → Prop
  | plain t => Quiet keys t
  | element t e d => Quiet keys t ∧ e.Sound keys ∧ d.Covers keys

/-- Are all items with the keys items of elements? -/
def covers (keys : List (ItemKind × Text)) : Document → Bool
  | plain t => quiet keys t
  | element t e d => quiet keys t && (takeOpening? e.kind.element e.start).all (·.elem '"') &&
      e.body.all (fun body => quiet keys body.1) && d.covers keys

variable {d d₁ d₂ : Document} {e : Element} {cut : Prop} {x : Text} {i : ProjectItem}

theorem covers_of_check (h : d.covers keys = true) : d.Covers keys := by
  induction d with
  | plain t => exact quiet_of_check h
  | element t e d ih =>
      simp only [covers, Bool.and_eq_true] at h
      obtain ⟨⟨⟨ht, hpath⟩, hbody⟩, hrest⟩ := h
      refine ⟨quiet_of_check ht, ⟨fun gap rest hgap hstart => ?_, fun body hmem => ?_⟩, ih hrest⟩
      · rw [takeOpening?_eq_some_iff.mpr ⟨gap, hgap, hstart⟩] at hpath
        simpa using hpath
      · rw [Option.mem_def.mp hmem] at hbody
        exact quiet_of_check hbody

theorem Covers.mono (h : d.Covers keys) (hsub : keys' ⊆ keys) : d.Covers keys' := by
  induction d with
  | plain t => exact Quiet.mono h hsub
  | element t e d ih => exact ⟨h.1.mono hsub, h.2.1.mono hsub, ih h.2.2⟩

theorem Covers.insert (h : (d₁ ++ d₂).Covers keys) (hseam : Seam d₁.last d₂.first)
    (hx : Inert x) : (d₁ ++ (plain x ++ d₂)).Covers keys := by
  induction d₁ with
  | plain u =>
      cases d₂ with
      | plain v => exact Quiet.insert h hseam hx
      | element v e d => exact ⟨h.1.insert hseam hx, h.2⟩
  | element t e d₁ ih => exact ⟨h.1, h.2.1, ih h.2.2 hseam⟩

theorem Covers.sound (h : (d₁ ++ element [] e d₂).Covers keys) : e.Sound keys := by
  induction d₁ with
  | plain u => exact h.2.1
  | element t e' d₁ ih => exact ih h.2.2

theorem Covers.replace {e' : Element} (h : (d₁ ++ element [] e d₂).Covers keys)
    (hsound : e'.Sound keys) : (d₁ ++ element [] e' d₂).Covers keys := by
  induction d₁ with
  | plain u => exact ⟨h.1, hsound, h.2.2⟩
  | element t e'' d₁ ih => exact ⟨h.1, h.2.1, ih h.2.2⟩

/-- An item is first listed by an element of a document, which is found by its opening tag. -/
structure Found (i : ProjectItem) (d₁ : Document) (e : Element) (d₂ : Document)
    (o : Occurrence ProjectItem) : Prop where
  located : locate? i (d₁ ++ element [] e d₂).text = some o
  item : e.item? = some o.value
  before : o.before = d₁.text
  start : e.start = o.source ++ e.attributes
  rest : o.rest = e.attributes ++ (e.finish ++ d₂.text)

/-- An item that is asked for is not listed, or it is found at an element. -/
theorem Covers.locate?_text (h : d.Covers keys) (hready : d.Ready keys cut) (hkey : i.key ∈ keys) :
    locate? i d.text = none ∨ ∃ d₁ e d₂ o, d = d₁ ++ element [] e d₂ ∧ Found i d₁ e d₂ o := by
  induction d generalizing cut with
  | plain t => exact .inl (locate?_eq_none_of_quiet h hkey)
  | element t e d ih =>
      obtain ⟨hquiet, hsound, hrest⟩ := h
      obtain ⟨-, hwhole, -, hready⟩ := hready
      have hparts : Parts takeItem? t (e.text ++ d.text) := parts_takeItem? fun kind =>
        parts_takeElement? (hquiet.tidy kind)
          (uncrossed_of_fenced (isName_element kind) (e.fenced_text d.text) t)
      have hfront : locate? i (t ++ (e.text ++ d.text)) =
          (locate? i (e.text ++ d.text)).map (·.shift t) :=
        takesPiece_takeItem?.findFirst?_append_of_none hparts
          (locate?_eq_none_of_quiet hquiet hkey)
      by_cases hitem : ∃ j, e.item? = some j ∧ j.key = i.key
      · obtain ⟨j, hj, hkey⟩ := hitem
        obtain ⟨source, hstart, hfound⟩ := e.locate?_text_of_item? hj hkey d.text
        rw [hfound] at hfront
        have htext : element t e d = plain t ++ element [] e d := by simp
        exact .inr ⟨plain t, e, d, _, htext, by rw [← htext]; exact hfront, hj, List.append_nil t,
          hstart, rfl⟩
      · have hother : ∀ j, e.item? = some j → j.key ≠ i.key := fun j hj heq => hitem ⟨j, hj, heq⟩
        rw [Element.locate?_text_of_ne hwhole hsound hkey hother] at hfront
        rcases ih hrest hready with hnone | ⟨d₁, e', d₂, o, rfl, hfound⟩
        · rw [hnone] at hfront
          exact .inl hfront
        · rw [hfound.located] at hfront
          refine .inr ⟨element t e d₁, e', d₂, _, rfl, hfront, hfound.item, ?_, hfound.start,
            hfound.rest⟩
          show t ++ (e.text ++ o.before) = _
          rw [hfound.before]
          rfl

end Document

end Registrar.ProjectFile
