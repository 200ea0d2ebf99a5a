import Registrar.Proofs.FilterCoverage

/-!
# What patching a filters file leaves alone

A filters file is patched by a row of steps, each of which makes its document grow (`Grown`): text is
put between elements, and an element that is asked for gets the filter (`Refiled`). What one
assignment does is said in `assign?_leads`, with one lemma for each shape of the element; as every
step leaves the document ready for the next one (`Leads`), the elements are kept by the whole patch
(`patch_grown`).
-/

namespace Registrar.ProjectFile

open Text ProjectItem

variable {keys keys' : List (ItemKind × Text)} {nl : Text}

/-! ## What may become of an element -/

/-- Children with the filter for generated files. It stands in the place of the first filter, or where
there was none on a line of its own in front of the closing tag. -/
inductive Refiltered (nl : Text) : Option (Text × Text) → Option (Text × Text) → Prop
  | opened : Refiltered nl none (some (nl ++ (filterLine nl ++ "    "), []))
  | value {front value back blanks : Text} : front.findAll takeFilterValue? = [] → '<' ∉ value →
      Refiltered nl (some (front ++ (filterTag value ++ back), blanks))
        (some (front ++ (filterTag generatedFilter ++ back), blanks))
  | line {front back blanks : Text} : (front ++ back).findAll takeFilterValue? = [] →
      (∀ c ∈ back, isBlank c = true) →
      Refiltered nl (some (front ++ back, blanks)) (some (front ++ (filterLine nl ++ back), blanks))

/-- The element is as before but for its filter. -/
structure Refiled (nl : Text) (e e' : Element) : Prop where
  kind : e'.kind = e.kind
  item : e'.item? = e.item?
  attributes : e'.attributes.trim = e.attributes.trim
  children : Refiltered nl e.body e'.body

/-- An element is the same, or it was asked for and is the same but for its filter. -/
def Kept (keys : List (ItemKind × Text)) (nl : Text) (e e' : Element) : Prop :=
  e' = e ∨ e.Asked keys ∧ Refiled nl e e'

theorem Kept.mono {e e' : Element} (h : Kept keys' nl e e') (hsub : keys' ⊆ keys) :
    Kept keys nl e e' :=
  h.imp_right fun h => ⟨h.1.mono hsub, h.2⟩

theorem Element.Asked.exists_item {e : Element} (h : e.Asked keys) :
    ∃ i, e.item? = some i ∧ i.key ∈ keys := by
  obtain ⟨i, hi, hkey⟩ := (Option.any_eq_true _ _).mp h
  exact ⟨i, hi, of_decide_eq_true hkey⟩

theorem Element.asked_iff {e : Element} {i : ProjectItem} (h : e.item? = some i) :
    e.Asked keys ↔ i.key ∈ keys := by
  unfold Element.Asked
  rw [h]
  simp

/-- An element is filed once, as different steps ask for different items. -/
theorem Kept.trans {e e' e'' : Element} (h : Kept keys nl e e') (h' : Kept keys' nl e' e'')
    (hdisj : ∀ k ∈ keys, k ∉ keys') : Kept (keys ++ keys') nl e e'' := by
  rcases h with rfl | ⟨hasked, hfiled⟩
  · exact h'.mono (List.subset_append_right keys keys')
  rcases h' with rfl | ⟨hasked', -⟩
  · exact .inr ⟨hasked.mono (List.subset_append_left keys keys'), hfiled⟩
  · obtain ⟨i, hi, hkey⟩ := hasked.exists_item
    rw [Element.asked_iff (hfiled.item.trans hi)] at hasked'
    exact absurd hasked' (hdisj _ hkey)

theorem Grown.mono {same same' : Element → Element → Prop} {d d' : Document}
    (h : Grown same d d') (hsame : ∀ e e', same e e' → same' e e') : Grown same' d d' := by
  induction h with
  | plain ht => exact .plain ht
  | element ht he _ ih => exact .element ht (hsame _ _ he) ih

theorem Grown.trans {d d' d'' : Document} (h : Grown (Kept keys nl) d d')
    (h' : Grown (Kept keys' nl) d' d'') (hdisj : ∀ k ∈ keys, k ∉ keys') :
    Grown (Kept (keys ++ keys') nl) d d'' := by
  induction h generalizing d'' with
  | plain ht =>
      cases h' with
      | plain ht' => exact .plain (ht.trans ht')
  | element ht he _ ih =>
      cases h' with
      | element ht' he' hrest => exact .element (ht.trans ht') (he.trans he' hdisj) (ih hrest)

theorem grown_replace {same : Element → Element → Prop} (hsame : ∀ e, same e e) {e e' : Element}
    (h : same e e') (d₁ d₂ : Document) :
    Grown same (d₁ ++ .element [] e d₂) (d₁ ++ .element [] e' d₂) := by
  induction d₁ with
  | plain u => exact .element (List.Sublist.refl _) h (Document.grown_refl hsame d₂)
  | element t e'' d₁ ih => exact .element (List.Sublist.refl t) (hsame e'') ih

theorem Kept.refl (keys : List (ItemKind × Text)) (nl : Text) (e : Element) : Kept keys nl e e :=
  .inl rfl

/-! ## Filing an element -/

namespace Element

variable {e : Element}

/-- The element with other children. -/
def withChildren (e : Element) (children : Text) : Element :=
  { e with body := some (children, []) }

theorem text_withChildren (e : Element) (children : Text) :
    (e.withChildren children).text = e.start ++ '>' :: (children ++ closingTag e.kind) := by
  unfold text finish withChildren closingTag
  simp only [List.append_nil]
  rfl

theorem Whole.withChildren {children : Text} (h : e.Whole) (hbody : e.body ≠ none)
    (hinside : ∀ closer ∈ closers, ¬ closer <:+: children) : (e.withChildren children).Whole where
  tag := h.tag
  opens := fun _ => h.opens hbody
  blanks := by
    rintro _ ⟨⟩
    rfl
  inside := by
    rintro _ ⟨⟩
    exact hinside

theorem Sound.withChildren {children : Text} (h : e.Sound keys) (hquiet : Quiet keys children) :
    (e.withChildren children).Sound keys where
  path := h.path
  children := by
    rintro _ ⟨⟩
    exact hquiet

/-- The element of an item in the filter. -/
def filtered (i : ProjectItem) (nl : Text) : Element :=
  ⟨i.kind, " Include=\"" ++ (i.path ++ ['"']), some (nl ++ (filterLine nl ++ "    "), [])⟩

theorem text_filtered (i : ProjectItem) (nl : Text) : (filtered i nl).text = filteredElement i nl := by
  unfold text start finish filtered filteredElement
  simp only [List.append_assoc, List.cons_append, List.nil_append]
  rfl

theorem takeItem?_filtered {i : ProjectItem} (hne : i.path ≠ []) (hquote : '"' ∉ i.path) (nl : Text) :
    takeItem? (filtered i nl).start = some (i, []) := by
  have hstart : (filtered i nl).start = opening i.kind.element " " ++ (i.path ++ '"' :: []) := by
    unfold start filtered opening
    simp only [List.append_assoc, List.cons_append]
    rfl
  rw [hstart]
  exact takeItem?_opening hne hquote gap_space []

theorem whole_filtered {i : ProjectItem} (hnl : IsLineBreak nl) (hne : i.path ≠ [])
    (hquote : '"' ∉ i.path) (hangle : '<' ∉ i.path) : (filtered i nl).Whole where
  tag := by
    have hlabel : '<' ∉ (" Include=\"" : Text) := by decide
    unfold filtered
    simp only [List.mem_append, List.mem_singleton, not_or]
    exact ⟨hlabel, hangle, by decide⟩
  opens := by
    intro _
    unfold attributes
    rw [takeItem?_filtered hne hquote]
    simp [trimEnd]
  blanks := by
    rintro _ ⟨⟩
    rfl
  inside := by
    rintro _ ⟨⟩
    refine closer_not_infix_of_notMem (.inr ?_)
    rcases hnl with rfl | rfl
    · decide
    · decide

theorem sound_filtered {i : ProjectItem} (hnl : IsLineBreak nl) (hne : i.path ≠ [])
    (hquote : '"' ∉ i.path) : (filtered i nl).Sound keys where
  path := path_of_item? (j := i) (by unfold item?; rw [takeItem?_filtered hne hquote]; rfl)
  children := by
    rintro _ ⟨⟩
    have hblanks : '<' ∉ nl ++ "    ".toList := by
      rcases hnl with rfl | rfl
      · decide
      · decide
    have hseam : Seam nl "    " := by
      rcases hnl with rfl | rfl
      · exact .inl rfl
      · exact .inl rfl
    exact Quiet.insert (quiet_of_notMem hblanks) hseam (inert_filterLine hnl)

end Element

/-- What a step leads to: a document that has grown, where other items can still be filed. -/
def Leads (asked keys : List (ItemKind × Text)) (nl : Text) (d : Document) (out : Text) : Prop :=
  ∃ d' : Document, out = d'.text ∧ Grown (Kept asked nl) d d' ∧ d'.Ready keys False ∧ d'.Covers keys

section

open Document

variable {d d₁ d₂ : Document} {e e' : Element} {i : ProjectItem} {o : Occurrence ProjectItem}
  {children : Text}

/-- An element gives way to one that is filed. -/
theorem Leads.of_refiled (hready : (d₁ ++ element [] e d₂).Ready keys False)
    (hcovers : (d₁ ++ element [] e d₂).Covers keys) (hitem : e.item? = some i)
    (hkey : i.key ∈ keys) (hsub : keys' ⊆ keys) (hnot : i.key ∉ keys') (hfiled : Refiled nl e e')
    (hwhole : e'.Whole) (hsound : e'.Sound keys) :
    Leads [i.key] keys' nl (d₁ ++ element [] e d₂) (d₁.text ++ (e'.text ++ d₂.text)) := by
  refine ⟨d₁ ++ element [] e' d₂, by rw [text_append]; rfl, ?_, ?_, ?_⟩
  · exact grown_replace (Kept.refl _ nl)
      (.inr ⟨(Element.asked_iff hitem).mpr List.mem_cons_self, hfiled⟩) d₁ d₂
  · refine hready.replace hsub id (.inr ((Element.asked_iff hitem).mpr hkey)) hwhole ?_
    rwa [Element.asked_iff (hfiled.item.trans hitem)]
  · exact (hcovers.replace hsound).mono hsub

theorem Document.Found.key_eq (h : Found i d₁ e d₂ o) : o.value.key = i.key :=
  (of_locate? h.located).1

theorem Document.Found.kind_eq (h : Found i d₁ e d₂ o) : i.kind = e.kind :=
  (kind_eq_of_key_eq h.key_eq).symm.trans (Element.kind_of_item? h.item)

/-- An element that closes itself is opened up. -/
theorem Document.Found.assign?_of_none (h : Found i d₁ e d₂ o) (hwhole : e.Whole)
    (hclose : '>' ∉ e.attributes) (hbody : e.body = none) :
    assign? i nl (d₁ ++ element [] e d₂).text =
      some (d₁.text ++ ((Element.filtered o.value nl).text ++ d₂.text)) := by
  have hrest : o.rest = (e.attributes ++ ['/']) ++ '>' :: d₂.text := by
    rw [h.rest]
    unfold Element.finish
    rw [hbody, List.append_assoc]
    rfl
  have hangle : '<' ∉ e.attributes ++ ['/'] := by simp [hwhole.notMem_attributes]
  have hslash : (e.attributes ++ ['/']).trimEnd.getLast? = some '/' := by
    have hsolid : isBlank '/' = false := by decide
    unfold trimEnd
    simp [hsolid]
  rw [assign?_eq h.located hangle (by simp [hclose]) hrest, if_pos hslash, h.before,
    Element.text_filtered, List.append_assoc]

/-- Otherwise a filter is set among the children. -/
theorem Document.Found.assign?_of_some (h : Found i d₁ e d₂ o) (hwhole : e.Whole)
    (hclose : '>' ∉ e.attributes) (hbody : e.body = some (children, []))
    (hclosing : ¬ closingTag e.kind <:+: children) :
    assign? i nl (d₁ ++ element [] e d₂).text =
      some (setFilter (d₁.text ++ o.source) (e.attributes ++ '>' :: children) nl ++
        closingTag e.kind ++ d₂.text) := by
  have hfinish : e.finish ++ d₂.text = '>' :: (children ++ (closingTag e.kind ++ d₂.text)) := by
    unfold Element.finish closingTag
    rw [hbody]
    simp only [List.append_assoc, List.cons_append, List.append_nil]
  have hrest : o.rest = e.attributes ++ '>' :: (children ++ (closingTag e.kind ++ d₂.text)) := by
    rw [h.rest, hfinish]
  have hslash := hwhole.opens (by rw [hbody]; nofun)
  rw [assign?_eq h.located hwhole.notMem_attributes hclose hrest, if_neg hslash, h.kind_eq,
    cut?_closingTag hclosing, h.before]

theorem Document.Found.text_withChildren (h : Found i d₁ e d₂ o) (children : Text) :
    d₁.text ++ ((e.withChildren children).text ++ d₂.text) =
      d₁.text ++ o.source ++ (e.attributes ++ '>' :: children) ++ closingTag e.kind ++ d₂.text := by
  rw [Element.text_withChildren, h.start]
  simp only [List.append_assoc, List.cons_append]

theorem Document.Found.leads_of_none (h : Found i d₁ e d₂ o) (hnl : IsLineBreak nl)
    (hready : (d₁ ++ element [] e d₂).Ready keys False)
    (hcovers : (d₁ ++ element [] e d₂).Covers keys) (hkey : i.key ∈ keys) (hsub : keys' ⊆ keys)
    (hnot : i.key ∉ keys') (hblank : e.attributes.all isBlank = true) (hbody : e.body = none) :
    Leads [i.key] keys' nl (d₁ ++ element [] e d₂)
      (d₁.text ++ ((Element.filtered o.value nl).text ++ d₂.text)) := by
  obtain ⟨hwhole, -⟩ := hready.of_element
  obtain ⟨hne, hquote, gap, -, hstart⟩ := Element.exists_opening_of_item? h.item
  have hangle : '<' ∉ o.value.path := by
    have htail : e.kind.element ++ e.tag = (o.value.kind.element ++ (gap ++ "Include=\"")) ++
        (o.value.path ++ '"' :: e.attributes) := (List.cons.inj hstart).2
    intro hmem
    refine hwhole.notMem_start (htail ▸ List.mem_append_right _ (List.mem_append_left _ hmem))
  have hread := Element.takeItem?_filtered hne hquote nl
  have hfiled : Refiled nl e (Element.filtered o.value nl) := by
    refine ⟨Element.kind_of_item? h.item, ?_, ?_, ?_⟩
    · rw [h.item]
      unfold Element.item?
      rw [hread]
      rfl
    · have hnil : (Element.filtered o.value nl).attributes = [] := by
        unfold Element.attributes
        rw [hread]
        rfl
      have hall : ∀ c ∈ e.attributes, isBlank c = true := List.all_eq_true.mp hblank
      have hskip : e.attributes.trimStart = [] := by
        have hdrop : (e.attributes ++ []).dropWhile isBlank = [].dropWhile isBlank :=
          List.dropWhile_append_of_pos hall
        rw [List.append_nil] at hdrop
        exact hdrop
      rw [hnil]
      unfold trim
      rw [hskip]
      rfl
    · rw [hbody]
      exact .opened
  rw [← h.key_eq] at hkey hnot ⊢
  exact .of_refiled hready hcovers h.item hkey hsub hnot hfiled
    (Element.whole_filtered hnl hne hquote hangle) (Element.sound_filtered hnl hne hquote)

/-- A change to the children of an element. -/
theorem Document.Found.leads_of_children (h : Found i d₁ e d₂ o)
    (hready : (d₁ ++ element [] e d₂).Ready keys False)
    (hcovers : (d₁ ++ element [] e d₂).Covers keys) (hkey : i.key ∈ keys) (hsub : keys' ⊆ keys)
    (hnot : i.key ∉ keys') {a old x b : Text} (hbody : e.body = some (a ++ (old ++ b), []))
    (hfiled : Refiltered nl e.body (some (a ++ (x ++ b), []))) (hseam : Seam a (old ++ b))
    (hold : old = [] ∨ Inert old) (hx : Inert x) (hcloser : ∀ closer ∈ closers, ¬ closer <:+: x) :
    Leads [i.key] keys' nl (d₁ ++ element [] e d₂)
      (d₁.text ++ ((e.withChildren (a ++ (x ++ b))).text ++ d₂.text)) := by
  obtain ⟨hwhole, -⟩ := hready.of_element
  rw [← h.key_eq] at hkey hnot ⊢
  refine .of_refiled hready hcovers h.item hkey hsub hnot ⟨rfl, rfl, rfl, hfiled⟩ ?_ ?_
  · refine hwhole.withChildren (by rw [hbody]; nofun) fun closer hmem => ?_
    exact closer_not_infix_edit hmem (hwhole.inside _ hbody closer hmem) hx.block
      (hcloser closer hmem)
  · exact hcovers.sound.withChildren ((hcovers.sound.children _ hbody).edit hseam hold hx)

theorem closer_not_infix_filterLine (hnl : IsLineBreak nl) :
    ∀ closer ∈ closers, ¬ closer <:+: filterLine nl := by
  refine closer_not_infix_of_notMem (.inr ?_)
  rcases hnl with rfl | rfl
  · decide
  · decide

theorem Element.Ending.isBlank {a b : Text} (h : Element.Ending (a ++ b)) (ha : a.getLast? = some '\n')
    (hb : '\n' ∉ b) : ∀ c ∈ b, isBlank c = true := by
  obtain ⟨a, rfl⟩ := List.getLast?_eq_some_iff.mp ha
  have hall := decide_ne_of_notMem (mt List.mem_reverse.mp hb)
  have htake : ((a ++ ['\n']) ++ b).reverse.takeWhile (· ≠ '\n') = b.reverse := by
    rw [List.reverse_append, List.takeWhile_append_of_pos hall]
    simp
  have hblank := h.2
  rw [htake, List.all_eq_true] at hblank
  exact fun c hc => hblank c (List.mem_reverse.mpr hc)

theorem Leads.mono {asked asked' : List (ItemKind × Text)} {out : Text}
    (h : Leads asked keys nl d out) (hasked : asked ⊆ asked') (hsub : keys' ⊆ keys) :
    Leads asked' keys' nl d out := by
  obtain ⟨d', rfl, hgrown, hready, hcovers⟩ := h
  exact ⟨d', rfl, hgrown.mono fun _ _ hkept => hkept.mono hasked, hready.mono hsub id,
    hcovers.mono hsub⟩

/-- Where an element has no filter and its tags share a line, a line goes in front of that line. -/
theorem Document.Found.leads_of_flat (h : Found i d₁ e d₂ o) (hnl : IsLineBreak nl)
    (hready : (d₁ ++ element [] e d₂).Ready keys False)
    (hcovers : (d₁ ++ element [] e d₂).Covers keys) (hbody : e.body = some (children, []))
    {a b : Text} (hcut : ¬ d₁.EndsCut keys False) (htext : d₁.text = a ++ b)
    (hend : a.getLast? = some '\n') (hb : '\n' ∉ b) :
    Leads [] keys nl (d₁ ++ element [] e d₂) (a ++ (filterLine nl ++
      (b ++ (e.start ++ '>' :: children))) ++ closingTag e.kind ++ d₂.text) := by
  obtain ⟨c₁, c₂, rfl, rfl, rfl, hlast⟩ := split_line htext hend hb hcut
  have helement : e.withChildren children = e := by
    unfold Element.withChildren
    rw [← hbody]
  rw [Document.append_assoc] at hready hcovers ⊢
  refine ⟨c₁ ++ (plain (filterLine nl) ++ (c₂ ++ element [] e d₂)), ?_,
    grown_insert (Kept.refl [] nl) c₁ _ _, hready.insert (.inl ?_),
    hcovers.insert (.inl hlast) (inert_filterLine hnl)⟩
  · simp only [text_append, Document.text]
    rw [← helement, Element.text_withChildren]
    simp only [List.append_assoc, List.cons_append, List.nil_append]
    rfl
  · exact fun hcut => hcut.notMem_last (List.mem_of_getLast? hlast)

/-- An element without a filter gets a line with one, or the line goes in front of it. -/
theorem Document.Found.leads_of_unfiltered (h : Found i d₁ e d₂ o) (hnl : IsLineBreak nl)
    (hready : (d₁ ++ element [] e d₂).Ready keys False)
    (hcovers : (d₁ ++ element [] e d₂).Covers keys) (hkey : i.key ∈ keys) (hsub : keys' ⊆ keys)
    (hnot : i.key ∉ keys') (hbody : e.body = some (children, []))
    (hnone : children.findAll takeFilterValue? = [])
    (hroom : Element.Ending children ∨
      '\n' ∉ e.start ++ '>' :: children ∧ ¬ d₁.EndsCut keys False) :
    Leads [i.key] keys' nl (d₁ ++ element [] e d₂)
      (insertBeforeLastLine (d₁.text ++ o.source ++ (e.attributes ++ '>' :: children)) (filterLine nl)
        ++ closingTag e.kind ++ d₂.text) := by
  have hline : ∀ {front back : Text}, children = front ++ back → Seam front back →
      (∀ c ∈ back, isBlank c = true) → Leads [i.key] keys' nl (d₁ ++ element [] e d₂)
        (d₁.text ++ o.source ++ (e.attributes ++ '>' :: (front ++ (filterLine nl ++ back))) ++
          closingTag e.kind ++ d₂.text) := by
    rintro front back rfl hseam hback
    have hbody' : e.body = some (front ++ ([] ++ back), []) := hbody
    rw [← h.text_withChildren]
    exact h.leads_of_children hready hcovers hkey hsub hnot hbody'
      (hbody ▸ .line hnone hback) hseam (.inl rfl) (inert_filterLine hnl)
      (closer_not_infix_filterLine hnl)
  rcases hroom with hending | ⟨hflat, hcut⟩
  · obtain ⟨a, b, rfl, hend, hb, hlines⟩ := insertBeforeLastLine_append_of_mem hending.1
      (d₁.text ++ o.source ++ (e.attributes ++ ['>'])) (filterLine nl)
    have hout := hline rfl (.inl hend) (hending.isBlank hend hb)
    simp only [List.append_assoc, List.cons_append, List.nil_append] at hlines hout ⊢
    rw [hlines]
    simpa only [List.append_assoc, List.cons_append] using hout
  · have htext : d₁.text ++ o.source ++ (e.attributes ++ '>' :: children) =
        d₁.text ++ (e.start ++ '>' :: children) := by
      rw [h.start]
      simp only [List.append_assoc]
    rw [htext]
    rcases insertBeforeLastLine_append_of_notMem hflat d₁.text (filterLine nl) with
      ⟨a, b, hsplit, hend, hb, hlines⟩ | hlines
    · rw [hlines]
      exact (h.leads_of_flat hnl hready hcovers hbody hcut hsplit hend hb).mono
        (List.nil_subset _) hsub
    · have hout := hline (List.append_nil children).symm (.inr (.inl rfl)) nofun
      rw [hlines, h.start]
      simpa only [List.append_assoc, List.cons_append, List.append_nil] using hout

/-- Moving an item files its element. -/
theorem assign?_leads (hnl : IsLineBreak nl) (hready : d.Ready keys False) (hcovers : d.Covers keys)
    (hkey : i.key ∈ keys) (hsub : keys' ⊆ keys) (hnot : i.key ∉ keys') {out : Text}
    (hassign : assign? i nl d.text = some out) : Leads [i.key] keys' nl d out := by
  rcases hcovers.locate?_text hready hkey with hnone | ⟨d₁, e, d₂, o, rfl, h⟩
  · rw [assign?_eq_none_iff.mpr hnone] at hassign
    cases hassign
  obtain ⟨hwhole, hfine⟩ := hready.of_element
  obtain ⟨hclose, hblank, hroom⟩ := hfine ((Element.asked_iff h.item).mpr (h.key_eq ▸ hkey))
  cases hbody : e.body with
  | none =>
      rw [h.assign?_of_none hwhole hclose hbody] at hassign
      exact Option.some.inj hassign ▸
        h.leads_of_none hnl hready hcovers hkey hsub hnot (hblank hbody) hbody
  | some body =>
      obtain ⟨children, blanks⟩ := body
      obtain ⟨hblanks, hclosing, hroom⟩ := hroom _ hbody
      obtain rfl : blanks = [] := hblanks
      rw [h.assign?_of_some hwhole hclose hbody hclosing] at hassign
      obtain rfl := Option.some.inj hassign
      cases hfirst : findFirst? takeFilterValue? (fun _ => true) (e.attributes ++ '>' :: children) with
      | some found =>
          obtain ⟨front, value, back, hvalue, rfl, hnone, -, hset⟩ := setFilter_of_filter
            hwhole.notMem_attributes hclosing (by rw [hfirst]; nofun) (d₁.text ++ o.source) nl
          rw [hset, ← h.text_withChildren]
          exact h.leads_of_children hready hcovers hkey hsub hnot hbody
            (hbody ▸ .value hnone hvalue) (.inr (fenced_markText e.kind (some value) back))
            (.inr (inert_filterTag hvalue)) (inert_filterTag (by decide))
            (closer_not_infix_of_notMem (.inr (by decide)))
      | none =>
          have hnone := unfiltered_children (findFirst?_true_eq_none_iff.mp hfirst)
          rw [setFilter_of_none hfirst]
          exact h.leads_of_unfiltered hnl hready hcovers hkey hsub hnot hbody hnone
            (hroom.resolve_left (not_not_intro hnone))

/-! ## The run over all items -/

/-- The items of a list are moved one after the other, each in an element of its own. -/
theorem assignAll_leads (hnl : IsLineBreak nl) {items : List ProjectItem}
    (hready : d.Ready (items.map key) False) (hcovers : d.Covers (items.map key))
    (hnodup : (items.map key).Nodup) :
    Leads (items.map key) [] nl d (assignAll nl items d.text).1 := by
  induction items generalizing d with
  | nil => exact ⟨d, rfl, grown_refl (Kept.refl _ nl) d, hready, hcovers⟩
  | cons i items ih =>
      rw [List.map_cons] at hready hcovers hnodup ⊢
      rw [List.nodup_cons] at hnodup
      have hsub : items.map key ⊆ i.key :: items.map key := List.subset_cons_self _ _
      rw [assignAll]
      cases hassign : assign? i nl d.text with
      | none =>
          exact (ih (hready.mono hsub id) (hcovers.mono hsub) hnodup.2).mono hsub
            (List.Subset.refl _)
      | some mid =>
          obtain ⟨d', rfl, hgrown, hready', hcovers'⟩ := assign?_leads hnl hready hcovers
            List.mem_cons_self hsub hnodup.1 hassign
          obtain ⟨d'', hout, hgrown', hready'', hcovers''⟩ := ih hready' hcovers' hnodup.2
          refine ⟨d'', hout, hgrown.trans hgrown' fun k hk => ?_, hready'', hcovers''⟩
          rw [List.mem_singleton.mp hk]
          exact hnodup.1

/-- The filter is declared between two elements. -/
theorem declareFilter_leads (hnl : IsLineBreak nl) (hready : d.Ready keys False)
    (hcovers : d.Covers keys) : Leads [] keys nl d (declareFilter nl d.text) := by
  unfold declareFilter
  split
  · exact ⟨d, rfl, grown_refl (Kept.refl _ nl) d, hready, hcovers⟩
  · obtain ⟨d₁, x, d₂, rfl, hinsert, hx, hseam, hready'⟩ :=
      insert_text takesPiece_takeFilter? hnl hready (declaration nl)
    have hinert : Inert x := by
      rcases hx with rfl | rfl
      · exact inert_declaration hnl
      · exact (inert_declaration hnl).itemGroup hnl
    exact ⟨_, hinsert, grown_insert (Kept.refl _ nl) d₁ d₂ x, hready', hcovers.insert hseam hinert⟩

/-- New items stand between two elements. -/
theorem insertKind_grown (hnl : IsLineBreak nl) (hready : d.Ready keys False)
    (l : List ProjectItem) (kind : ItemKind) :
    ∃ d' : Document, insertKind nl l d.text kind = d'.text ∧ Grown (Kept [] nl) d d' ∧
      d'.Ready keys False := by
  unfold insertKind
  split
  · exact ⟨d, rfl, grown_refl (Kept.refl _ nl) d, hready⟩
  · have hprobe : TakesPiece fun t => (takeOpening? kind.element t).map fun rest => ((), rest) :=
      takesPiece_takeOpening?
    obtain ⟨d₁, x, d₂, rfl, hinsert, -, -, hready'⟩ :=
      insert_text hprobe hnl hready (linesOf (filteredLine nl) l kind)
    exact ⟨_, hinsert, grown_insert (Kept.refl _ nl) d₁ d₂ x, hready'⟩

/-- A patched document has the elements that it had, those that were asked for in the filter. -/
theorem patch_grown (hnl : IsLineBreak nl) {wanted : List ProjectItem}
    (hready : d.Ready (wanted.map key) False) (hcovers : d.Covers (wanted.map key))
    (hnodup : (wanted.map key).Nodup) :
    ∃ d' : Document, patch nl wanted d.text = d'.text ∧ Grown (Kept (wanted.map key) nl) d d' := by
  obtain ⟨d₁, hdeclare, hgrown₁, hready₁, hcovers₁⟩ := declareFilter_leads hnl hready hcovers
  obtain ⟨d₂, hassign, hgrown₂, hready₂, -⟩ := assignAll_leads hnl hready₁ hcovers₁ hnodup
  obtain ⟨d₃, hcompile, hgrown₃, hready₃⟩ := insertKind_grown hnl hready₂
    (assignAll nl wanted d₁.text).2 .compile
  obtain ⟨d₄, hinclude, hgrown₄, -⟩ := insertKind_grown hnl hready₃
    (assignAll nl wanted d₁.text).2 .include_
  have hpatch : patch nl wanted d.text = d₄.text := by
    unfold patch
    rw [hdeclare, hassign, ← hinclude, ← hcompile]
    rfl
  have hgrown := ((hgrown₁.trans hgrown₂ nofun).trans hgrown₃ fun _ _ => List.not_mem_nil).trans
    hgrown₄ fun _ _ => List.not_mem_nil
  rw [List.append_nil, List.append_nil] at hgrown
  exact ⟨d₄, hpatch, hgrown⟩

end

/-- Patching a filters file leaves everything else alone. Where every item that is asked for is the
item of an element that can be filed by its filter alone, and no line on which a group or the project
closes starts within an element, the patched file has all elements in their order. One that is not
asked for is the same; one that is keeps its kind, its path, its attributes and its children but for
the filter. -/
theorem addFilters?_keeps_elements {d : Document} {projectDir : Path} {files : List Path} {out : Text}
    (hready : d.Ready ((ofFiles projectDir files).map key) False)
    (hcovers : d.Covers ((ofFiles projectDir files).map key))
    (h : addFilters? d.text projectDir files = some out) :
    ∃ d' : Document, out = d'.text ∧
      Grown (Kept ((ofFiles projectDir files).map key) (lineBreak d.text)) d d' := by
  have hsub : (unseen [] (ofFiles projectDir files)).map key ⊆ (ofFiles projectDir files).map key := by
    intro k hk
    obtain ⟨i, hi, rfl⟩ := List.mem_map.mp hk
    exact List.mem_map_of_mem (of_mem_unseen hi).1
  obtain ⟨d', hpatch, hgrown⟩ := patch_grown (isLineBreak_lineBreak d.text) (hready.mono hsub id)
    (hcovers.mono hsub) nodup_unseen
  rw [addFilters?_eq] at h
  split at h
  · cases h
  · exact ⟨d', (Option.some.inj h).symm.trans hpatch, hgrown.mono fun _ _ hkept => hkept.mono hsub⟩

/-- A filters file with an item that closes itself, one with a comparison among its attributes, one in
another filter and one without any. -/
def labelledFilters : Document :=
  .element "<Project>\n  <ItemGroup>\n    " ⟨.compile, " Include=\"A.cpp\" ", none⟩ <|
  .element "\n    " ⟨.compile, " Include=\"B.cpp\" Condition=\"1 > 0\"",
    some ("\n      <Filter>Source</Filter>\n    ", " ")⟩ <|
  .element "\n    " ⟨.include_, " Include=\"C.h\" Label=\"c\"",
    some ("\n      <Filter>Source</Filter>\n      <Note>c</Note>\n    ", [])⟩ <|
  .element "\n    " ⟨.include_, "\n      Include=\"D.h\"", some ("\n      <Note>d</Note>\n    ", [])⟩ <|
  .plain "\n  </ItemGroup>\n</Project>\n"

/-- Three items of the file and one more. -/
def labelledFiles : List Path :=
  ["/proj/A.cpp", "/proj/C.h", "/proj/D.h", "/proj/E.h"]

theorem addFilters?_keeps_elements_labelled :
    labelledFilters.Ready ((ofFiles "/proj" labelledFiles).map key) False ∧
      labelledFilters.Covers ((ofFiles "/proj" labelledFiles).map key) ∧
      ∃ out, addFilters? labelledFilters.text "/proj" labelledFiles = some out ∧
        ∃ d' : Document, out = d'.text ∧
          Grown (Kept ((ofFiles "/proj" labelledFiles).map key) (lineBreak labelledFilters.text))
            labelledFilters d' := by
  -- at once, as each part reads the same texts
  obtain ⟨hready, hcheck, hsome⟩ :
      labelledFilters.Ready ((ofFiles "/proj" labelledFiles).map key) False ∧
      labelledFilters.covers ((ofFiles "/proj" labelledFiles).map key) = true ∧
      addFilters? labelledFilters.text "/proj" labelledFiles ≠ none := by
    decide +kernel
  have hcovers : labelledFilters.Covers ((ofFiles "/proj" labelledFiles).map key) :=
    Document.covers_of_check hcheck
  obtain ⟨out, hout⟩ := Option.ne_none_iff_exists'.mp hsome
  exact ⟨hready, hcovers, out, hout, addFilters?_keeps_elements hready hcovers hout⟩

/-- An element that closes itself, with a condition. -/
def conditionalItem (condition : Text) : Element :=
  ⟨.compile, " Include=\"A.cpp\" Condition=\"" ++ condition ++ "\" ", none⟩

/-- An element in a filter. -/
def sourceItem : Element :=
  ⟨.compile, " Include=\"B.cpp\"", some ("\n      <Filter>Source</Filter>\n    ", [])⟩

/-- A filters file with the two items. -/
def conditionalFilters (condition : Text) : Document :=
  .element "<Project>\n  <ItemGroup>\n    " (conditionalItem condition) <|
  .element "\n    " sourceItem (.plain "\n  </ItemGroup>\n</Project>\n")

/-- An item that closes itself loses its other attributes when it is filed. If one of them holds the
bracket that ends a tag, the item is taken to go on up to the closing tag of the next one, which gets
the filter in its place. -/
theorem attributes_lost_and_neighbour_filed :
    (∃ out, addFilters? (conditionalFilters "true").text "/proj" ["/proj/A.cpp".toList] = some out ∧
      ¬ ("Condition" : Text) <:+: out) ∧
    ∃ out, addFilters? (conditionalFilters "1 > 0").text "/proj" ["/proj/A.cpp".toList] = some out ∧
      ¬ sourceItem.Asked ((ofFiles "/proj" ["/proj/A.cpp".toList]).map key) ∧
      ¬ sourceItem.text <:+: out := by
  have hfirst : ((addFilters? (conditionalFilters "true").text "/proj" ["/proj/A.cpp".toList]).any
      fun out => decide (¬ ("Condition" : Text) <:+: out)) = true := by
    decide +kernel
  have hsecond : ((addFilters? (conditionalFilters "1 > 0").text "/proj" ["/proj/A.cpp".toList]).any
      fun out => decide (¬ sourceItem.text <:+: out)) = true := by
    decide +kernel
  obtain ⟨out₁, hout₁, hlost⟩ := (Option.any_eq_true _ _).mp hfirst
  obtain ⟨out₂, hout₂, hchanged⟩ := (Option.any_eq_true _ _).mp hsecond
  exact ⟨⟨out₁, hout₁, of_decide_eq_true hlost⟩, out₂, hout₂, by decide +kernel,
    of_decide_eq_true hchanged⟩

end Registrar.ProjectFile
